import CidrTable.Hook
import CidrTable.Proofs.Table.Outcome

/-! Hooks run in turn.

A run takes the hooks as one chain: what a hook declines with goes to the next
(`run_cons`), so a run may be cut anywhere (`run_append`) and hooks may be grouped in any
way (`run_flatten`). `DeclinesTo` is a stretch of hooks that all decline, `Ends` the two ways
in which a run ends: at the first hook that does not decline, or behind the last.
`runs_in_turn` says that each run ends in one of them and leaves nothing else behind. -/
namespace CidrTable

variable {V : Type}

/-! ### Outcomes that stand -/

namespace Outcome

/-- The outcome is not a decline. -/
def Settled (o : Outcome V) : Prop := ∀ raw, o ≠ .declined raw

theorem orElse_of_settled {o : Outcome V} (h : o.Settled) (next : Hook V) : o.orElse next = pure o := by
  cases o with
  | handled t => rfl
  | declined raw => exact absurd rfl (h raw)
  | failed e => rfl

theorem settled_or_declined (o : Outcome V) : o.Settled ∨ ∃ raw, o = .declined raw := by
  cases o with
  | handled t => exact .inl nofun
  | declined raw => exact .inr ⟨raw, rfl⟩
  | failed e => exact .inl nofun

/-- A document that is handed back is handed back as it was. -/
theorem eq_of_declined (S : Schema V) (raw last : Json) (h : (ofJson S raw).result = .declined last) :
    last = raw := by
  rcases raw.kinds with rfl | ⟨fields, rfl⟩ | hb
  · cases h
  · exact absurd h (ofExcept_ne_declined _ last)
  · rw [result_ofJson_of_isBare S raw hb] at h
    have hbare := bare_ofBare S raw
    rw [h] at hbare
    cases hbare
    rfl

end Outcome

namespace Hook

/-! ### One hook after another -/

/-- Behind any outcome the run goes on only if it is a decline. -/
theorem foldlM_orElse (hooks : List (Hook V)) (o : Outcome V) :
    hooks.foldlM (fun o next => o.orElse next) o = o.orElse (run hooks) := by
  rcases o.settled_or_declined with h | ⟨raw, rfl⟩
  · rw [Outcome.orElse_of_settled h]
    induction hooks with
    | nil => rfl
    | cons next rest ih =>
      rw [List.foldlM_cons, Outcome.orElse_of_settled h, pure_bind]
      exact ih
  · rfl

/-- **The first hook takes the document, the others what it declines with.** -/
theorem run_cons (h : Hook V) (rest : List (Hook V)) (raw : Json) :
    run (h :: rest) raw = h raw >>= fun o => o.orElse (run rest) := by
  rw [run, List.foldlM_cons]
  exact congrArg (h raw >>= ·) (funext (foldlM_orElse rest))

/-- A run may be cut anywhere. -/
theorem run_append (front back : List (Hook V)) (raw : Json) :
    run (front ++ back) raw = run front raw >>= fun o => o.orElse (run back) := by
  rw [run, List.foldlM_append]
  exact congrArg (run front raw >>= ·) (funext (foldlM_orElse back))

/-- **Grouping does not matter**: a group of hooks is itself a hook. -/
theorem run_flatten (groups : List (List (Hook V))) (raw : Json) :
    run groups.flatten raw = run (groups.map run) raw := by
  induction groups generalizing raw with
  | nil => rfl
  | cons group rest ih =>
    rw [List.flatten_cons, List.map_cons, run_append, run_cons, funext ih]

/-! ### Hooks that decline -/

/-- The hooks decline in turn, each what the one before it declined with: what the last of them
hands on, behind the records and metrics of all. -/
inductive DeclinesTo : List (Hook V) → Json → Reported Json → Prop where
  | nil (raw : Json) : DeclinesTo [] raw (pure raw)
  | cons {h : Hook V} {rest : List (Hook V)} {raw next : Json} {last : Reported Json} :
      (h raw).result = .declined next → DeclinesTo rest next last →
      DeclinesTo (h :: rest) raw (h raw >>= fun _ => last)

/-- Behind hooks that decline a run goes on with what they hand on. -/
theorem DeclinesTo.run_append {front : List (Hook V)} {raw : Json} {last : Reported Json}
    (hfront : DeclinesTo front raw last) (back : List (Hook V)) :
    run (front ++ back) raw = last >>= run back := by
  induction hfront with
  | nil raw => exact (pure_bind raw (run back)).symm
  | @cons h rest raw next last hnext _ ih =>
    have hon : (h raw).result.orElse (run (rest ++ back)) = last >>= run back := by
      rw [hnext]
      exact ih
    rw [List.cons_append, run_cons, Reported.bind_congr (h raw) _ (fun _ => last >>= run back) hon,
      bind_assoc]

/-- Hooks that all hand back what they were given hand back the first document. -/
theorem DeclinesTo.result_eq {hooks : List (Hook V)} {raw : Json} {last : Reported Json}
    (hall : DeclinesTo hooks raw last)
    (hsame : ∀ g ∈ hooks, ∀ j k, (g j).result = .declined k → k = j) : last.result = raw := by
  induction hall with
  | nil raw => rfl
  | @cons h rest raw next last hnext _ ih =>
    rw [← hsame h (List.mem_cons_self ..) raw next hnext]
    exact ih fun g hg => hsame g (List.mem_cons_of_mem h hg)

/-! ### How a run ends -/

/-- What a run comes to. -/
inductive Ends (hooks : List (Hook V)) (raw : Json) : Reported (Outcome V) → Prop where
  /-- The first hook that does not decline has the last word, whatever comes after it. -/
  | settled (front : List (Hook V)) (h : Hook V) (back : List (Hook V)) (last : Reported Json) :
      hooks = front ++ h :: back → DeclinesTo front raw last → (h last.result).result.Settled →
      Ends hooks raw (last >>= h)
  /-- If all decline, the last decline's document is handed back. -/
  | declined (last : Reported Json) : DeclinesTo hooks raw last →
      Ends hooks raw (Outcome.declined <$> last)

theorem Ends.run_eq {hooks : List (Hook V)} {raw : Json} {r : Reported (Outcome V)}
    (h : Ends hooks raw r) : run hooks raw = r := by
  cases h with
  | settled front h back last hsplit hfront hsettled =>
    have hstop : run (h :: back) last.result = h last.result := by
      rw [run_cons, Reported.bind_congr (h last.result) _ pure
        (Outcome.orElse_of_settled hsettled (run back)), bind_pure]
    rw [hsplit, hfront.run_append, Reported.bind_congr last _ h hstop]
  | declined last hall =>
    have hrun := hall.run_append []
    rw [List.append_nil] at hrun
    exact hrun.trans (map_eq_pure_bind _ last).symm

theorem exists_ends (hooks : List (Hook V)) (raw : Json) : ∃ r, Ends hooks raw r := by
  induction hooks generalizing raw with
  | nil => exact ⟨_, .declined _ (.nil raw)⟩
  | cons h rest ih =>
    rcases (h raw).result.settled_or_declined with hsettled | ⟨next, hnext⟩
    · exact ⟨_, .settled [] h rest (pure raw) rfl (.nil raw) hsettled⟩
    · obtain ⟨_, hends⟩ := ih next
      cases hends with
      | settled front g back last hsplit hfront hsettled =>
        exact ⟨_, .settled (h :: front) g back _ (congrArg (h :: ·) hsplit) (.cons hnext hfront)
          hsettled⟩
      | declined last hall => exact ⟨_, .declined _ (.cons hnext hall)⟩

theorem run_eq_iff (hooks : List (Hook V)) (raw : Json) (r : Reported (Outcome V)) :
    run hooks raw = r ↔ Ends hooks raw r := by
  constructor
  · rintro rfl
    obtain ⟨r, hr⟩ := exists_ends hooks raw
    rw [hr.run_eq]
    exact hr
  · exact Ends.run_eq

/-- A run that is declined was declined by every hook. -/
theorem exists_declinesTo (hooks : List (Hook V)) (raw last : Json)
    (h : (run hooks raw).result = .declined last) :
    ∃ r, DeclinesTo hooks raw r ∧ r.result = last := by
  obtain ⟨r, hr⟩ := exists_ends hooks raw
  rw [hr.run_eq] at h
  cases hr with
  | settled front g back r hsplit hfront hsettled => exact absurd h (hsettled last)
  | declined r hall => exact ⟨r, hall, Outcome.declined.inj h⟩

/-- What a run of hooks owes. -/
structure RunsInTurn (hooks : List (Hook V)) (raw : Json) : Prop where
  /-- It comes to what the first hook that does not decline comes to, or all decline. -/
  ends : ∀ r, run hooks raw = r ↔ Ends hooks raw r
  /-- Behind the hook that settles it any others may stand: they are not run. -/
  not_run : ∀ front h back last, hooks = front ++ h :: back → DeclinesTo front raw last →
    (h last.result).result.Settled → ∀ others, run (front ++ h :: others) raw = run hooks raw
  /-- Hooks that decode the document itself hand it back as it was. -/
  handed_back : (∀ h ∈ hooks, ∃ S : Schema V, h = table S) →
    ∀ last, (run hooks raw).result = .declined last → last = raw
  append : ∀ more, run (hooks ++ more) raw = run hooks raw >>= fun o => o.orElse (run more)
  grouped : ∀ groups : List (List (Hook V)), groups.flatten = hooks →
    run (groups.map run) raw = run hooks raw

/-- **Hooks run in turn until one does not decline.** -/
theorem runs_in_turn (hooks : List (Hook V)) (raw : Json) : RunsInTurn hooks raw := by
  constructor
  case ends => exact run_eq_iff hooks raw
  case not_run =>
    intro front h back last hsplit hfront hsettled others
    have hends : Ends hooks raw (last >>= h) := .settled front h back last hsplit hfront hsettled
    have hothers : Ends (front ++ h :: others) raw (last >>= h) :=
      .settled front h others last rfl hfront hsettled
    rw [hends.run_eq, hothers.run_eq]
  case handed_back =>
    intro htables last hlast
    obtain ⟨r, hall, rfl⟩ := exists_declinesTo hooks raw last hlast
    refine hall.result_eq fun g hg j k hk => ?_
    obtain ⟨S, rfl⟩ := htables g hg
    exact Outcome.eq_of_declined S j k hk
  case append => exact fun more => run_append hooks more raw
  case grouped =>
    rintro groups rfl
    exact (run_flatten groups raw).symm

/-- A failure on a document that an earlier hook put in place: the hook behind it is not run. -/
theorem failure_ends_run :
    DeclinesTo [(replace (.object [("x", .null)]) : Hook String)] (.text "y")
        (pure (.object [("x", .null)])) ∧
      (table (Schema.text "text") (.object [("x", .null)])).result =
        .failed (.subnet 0 "x" .missingSeparator) ∧
      run [replace (.object [("x", .null)]), table (Schema.text "text")] (.text "y") =
        run [replace (.object [("x", .null)]), table (Schema.text "text"),
          firstOfList (Schema.text "text")] (.text "y") :=
  have hfront : DeclinesTo [(replace (.object [("x", .null)]) : Hook String)] (.text "y")
      (pure (.object [("x", .null)])) := .cons rfl (.nil _)
  ⟨hfront, rfl, (runs_in_turn [replace (.object [("x", .null)]), table (Schema.text "text"),
    firstOfList (Schema.text "text")] (.text "y")).not_run _ _ _ _ rfl hfront nofun []⟩

end Hook

end CidrTable
