import Mathlib.Data.List.Nodup
import Mathlib.Logic.Relation

/-!
A ledger that holds every job at most once. Jobs arrive and wait, are dropped or
run; a record of a run is settled further or rolled back, and its job may run again.
Whatever happens in whatever order, a key stands for one payload as long as every
job that arrives under it brings that payload.
-/

namespace SolanaSdk.JobLedgers

structure Record (Key Payload Level : Type) where
  key : Key
  payload : Payload
  level : Level

structure Ledger (Key Payload Level : Type) where
  pending : List (Key × Payload)
  records : List (Record Key Payload Level)
  once : (records.map Record.key).Nodup

variable {Key Payload Level : Type}

namespace Ledger

def empty : Ledger Key Payload Level := ⟨[], [], List.nodup_nil⟩

def arrive (ledger : Ledger Key Payload Level) (job : Key × Payload) : Ledger Key Payload Level :=
  { ledger with pending := job :: ledger.pending }

def run (ledger : Ledger Key Payload Level) (job : Key × Payload) (level : Level)
    (new : job.1 ∉ ledger.records.map Record.key) : Ledger Key Payload Level where
  pending := ledger.pending
  records := ⟨job.1, job.2, level⟩ :: ledger.records
  once := List.nodup_cons.mpr ⟨new, ledger.once⟩

variable [DecidableEq Key]

def settleRecord (key : Key) (level : Level) (record : Record Key Payload Level) :
    Record Key Payload Level := if record.key = key then { record with level } else record

theorem settle_key (key : Key) (level : Level) (record : Record Key Payload Level) :
    (settleRecord key level record).key = record.key := by
  rw [settleRecord]
  split <;> rfl

theorem settle_payload (key : Key) (level : Level) (record : Record Key Payload Level) :
    (settleRecord key level record).payload = record.payload := by
  rw [settleRecord]
  split <;> rfl

def settle (ledger : Ledger Key Payload Level) (key : Key) (level : Level) :
    Ledger Key Payload Level where
  pending := ledger.pending
  records := ledger.records.map (settleRecord key level)
  once := by
    have keys : ledger.records.map (Record.key ∘ settleRecord key level) =
        ledger.records.map Record.key :=
      List.map_congr_left fun record _ => settle_key key level record
    rw [List.map_map, keys]
    exact ledger.once

def rollBack (ledger : Ledger Key Payload Level) (key : Key) : Ledger Key Payload Level where
  pending := ledger.pending
  records := ledger.records.filter fun record => record.key ≠ key
  once := ledger.once.sublist (List.filter_sublist.map _)

/-- How far a key has got. -/
def level (ledger : Ledger Key Payload Level) (key : Key) : Option Level :=
  (ledger.records.find? fun record => record.key = key).map Record.level

theorem level_none_iff (ledger : Ledger Key Payload Level) (key : Key) :
    ledger.level key = none ↔ key ∉ ledger.records.map Record.key := by
  rw [level, Option.map_eq_none_iff, List.find?_eq_none, List.mem_map]
  simp only [decide_eq_true_eq, not_exists, not_and]

end Ledger

/-- One event; `allowed` restricts what may arrive. -/
inductive Step [DecidableEq Key] (allowed : Key × Payload → Prop) :
    Ledger Key Payload Level → Ledger Key Payload Level → Prop
  | arrive (ledger job) (fair : allowed job) : Step allowed ledger (ledger.arrive job)
  | drop (ledger kept) (fewer : kept ⊆ ledger.pending) :
      Step allowed ledger { ledger with pending := kept }
  | run (ledger job level) (waiting : job ∈ ledger.pending)
      (new : job.1 ∉ ledger.records.map Record.key) : Step allowed ledger (ledger.run job level new)
  | settle (ledger key level) : Step allowed ledger (ledger.settle key level)
  | rollBack (ledger key) : Step allowed ledger (ledger.rollBack key)

abbrev Steps [DecidableEq Key] (allowed : Key × Payload → Prop) :
    Ledger Key Payload Level → Ledger Key Payload Level → Prop :=
  Relation.ReflTransGen (Step allowed)

section Payloads
variable (key : Key) (payload : Payload)

def Brings (job : Key × Payload) : Prop := job.1 = key → job.2 = payload

/-- Whatever waits or has run under the key has the payload. -/
structure Carries (ledger : Ledger Key Payload Level) : Prop where
  waiting : ∀ job ∈ ledger.pending, Brings key payload job
  run : ∀ record ∈ ledger.records, record.key = key → record.payload = payload

theorem empty_carries : Carries key payload (Ledger.empty : Ledger Key Payload Level) where
  waiting _ member := absurd member List.not_mem_nil
  run _ member := absurd member List.not_mem_nil

theorem arrive_carries (ledger : Ledger Key Payload Level) (carries : Carries key payload ledger)
    (job : Key × Payload) (fair : Brings key payload job) :
    Carries key payload (ledger.arrive job) where
  waiting := List.forall_mem_cons.mpr ⟨fair, carries.waiting⟩
  run := carries.run

variable [DecidableEq Key]

theorem step_carries (before after : Ledger Key Payload Level)
    (step : Step (Brings key payload) before after) (carries : Carries key payload before) :
    Carries key payload after := by
  cases step with
  | arrive job fair => exact arrive_carries key payload before carries job fair
  | drop kept fewer => exact ⟨fun job member => carries.waiting job (fewer member), carries.run⟩
  | run job level waiting new =>
      exact ⟨carries.waiting, List.forall_mem_cons.mpr ⟨carries.waiting job waiting, carries.run⟩⟩
  | settle other level =>
      refine ⟨carries.waiting, fun record member same => ?_⟩
      obtain ⟨old, listed, rfl⟩ := List.mem_map.mp member
      rw [Ledger.settle_payload]
      rw [Ledger.settle_key] at same
      exact carries.run old listed same
  | rollBack other =>
      exact ⟨carries.waiting, fun record member => carries.run record (List.mem_of_mem_filter member)⟩

theorem steps_carry (before after : Ledger Key Payload Level)
    (steps : Steps (Brings key payload) before after) (carries : Carries key payload before) :
    Carries key payload after := by
  induction steps with
  | refl => exact carries
  | tail _ step ih => exact step_carries key payload _ _ step ih

/-- A key that has run has one record, with its payload. -/
theorem carries_once (ledger : Ledger Key Payload Level) (carries : Carries key payload ledger)
    (here : key ∈ ledger.records.map Record.key) :
    ∃ level, (ledger.records.filter fun record => record.key = key) = [⟨key, payload, level⟩] := by
  have one : (ledger.records.filter fun record => record.key = key).length = 1 := by
    rw [← List.countP_eq_length_filter]
    have counted := List.count_eq_one_of_mem ledger.once here
    rw [List.count, List.countP_map] at counted
    rw [← counted]
    rfl
  obtain ⟨record, only⟩ := List.length_eq_one_iff.mp one
  have member : record ∈ ledger.records.filter fun record => record.key = key := by
    rw [only]
    exact List.mem_singleton.mpr rfl
  obtain ⟨listed, same⟩ := List.mem_filter.mp member
  have named := of_decide_eq_true same
  have carried := carries.run record listed named
  refine ⟨record.level, ?_⟩
  rw [only, ← named, ← carried]

end Payloads

end SolanaSdk.JobLedgers
