import CidrTable.Text.Quoted

/-! What decoding leaves besides its result.

Decoding writes log records and counts its outcomes. Both are data: a `Reported` value is
a result with the records and the metrics made on the way, in order. Steps run one after
another add theirs at the end (`Reported.logs_bind`, `Reported.metrics_bind`). The decoder
and the trie write to the same log; `decoderRecords` are the records of the decoder. -/
namespace CidrTable

/-- A log record of decoding. -/
inductive Record where
  /-- A key was understood. -/
  | accepted (index : Nat) (written canonical : String)
  /-- Its prefix was there already and the earlier value is dropped. -/
  | overridden (index : Nat) (written canonical : String)
  /-- A comparison on the way to an inserted prefix's place, as the trie words it. -/
  | inserted (step : String)
  /-- A table was built. -/
  | built (size : Nat)
  /-- A bare value does not decode as a value of the table. -/
  | refused (typeName reason : String)
  deriving DecidableEq

namespace Record

/-- The severity a record is written at. -/
def level : Record → String
  | accepted .. => "TRACE"
  | overridden .. => "WARN"
  | inserted _ => "TRACE"
  | built .. => "DEBUG"
  | refused .. => "DEBUG"

def message : Record → String
  | accepted index written canonical =>
    "[DECODE] key " ++ toString index ++ " " ++ Text.quoted written ++ " -> " ++ canonical
  | overridden index written canonical =>
    "[DECODE] key " ++ toString index ++ " (" ++ Text.quoted written ++
      ") overrides an earlier entry for " ++ canonical
  | inserted step => step
  | built size => "[DECODE] built subnet map with " ++ toString size ++ " prefixes"
  | refused typeName reason => "[DECODE] not a " ++ typeName ++ ": " ++ reason

/-- Whether the decoder writes it, and not the trie. -/
def byDecoder : Record → Bool
  | inserted _ => false
  | _ => true

end Record

/-- What the decoder wrote of a log. -/
def decoderRecords (log : List Record) : List Record := log.filter Record.byDecoder

/-- A value reported to the metrics collector. -/
structure Metric where
  name : String
  value : Nat
  deriving DecidableEq

/-- A result with the records and metrics made on the way to it. -/
structure Reported (α : Type) where
  result : α
  logs : List Record := []
  metrics : List Metric := []

namespace Reported

variable {α β : Type}

instance : Monad Reported where
  pure x := ⟨x, [], []⟩
  bind r f :=
    let s := f r.result
    ⟨s.result, r.logs ++ s.logs, r.metrics ++ s.metrics⟩

def log (r : Record) : Reported Unit := ⟨(), [r], []⟩

def logAll (rs : List Record) : Reported Unit := ⟨(), rs, []⟩

def count (ms : List Metric) : Reported Unit := ⟨(), [], ms⟩

/-! ### What steps leave -/

@[simp] theorem result_pure (x : α) : (pure x : Reported α).result = x := rfl

@[simp] theorem metrics_pure (x : α) : (pure x : Reported α).metrics = [] := rfl

@[simp] theorem result_bind (r : Reported α) (f : α → Reported β) :
    (r >>= f).result = (f r.result).result := rfl

@[simp] theorem metrics_bind (r : Reported α) (f : α → Reported β) :
    (r >>= f).metrics = r.metrics ++ (f r.result).metrics := rfl

@[simp] theorem result_map (f : α → β) (r : Reported α) : (f <$> r).result = f r.result := rfl

@[simp] theorem logs_map (f : α → β) (r : Reported α) : (f <$> r).logs = r.logs :=
  List.append_nil _

@[simp] theorem metrics_map (f : α → β) (r : Reported α) : (f <$> r).metrics = r.metrics :=
  List.append_nil _

@[simp] theorem metrics_log (r : Record) : (log r).metrics = [] := rfl

@[simp] theorem logs_logAll (rs : List Record) : (logAll rs).logs = rs := rfl

@[simp] theorem metrics_logAll (rs : List Record) : (logAll rs).metrics = [] := rfl

@[simp] theorem logs_count (ms : List Metric) : (count ms).logs = [] := rfl

@[simp] theorem metrics_count (ms : List Metric) : (count ms).metrics = ms := rfl

/-- What follows a step depends on the step's result only. -/
theorem bind_congr (r : Reported α) (f g : α → Reported β) (h : f r.result = g r.result) :
    r >>= f = r >>= g := by
  show (⟨_, _, _⟩ : Reported β) = ⟨_, _, _⟩
  rw [h]

instance : LawfulMonad Reported :=
  LawfulMonad.mk' Reported
    (fun r => by cases r; simp [Functor.map])
    (fun x f => by simp [bind, pure])
    (fun r f g => by simp [bind, List.append_assoc])

end Reported

end CidrTable
