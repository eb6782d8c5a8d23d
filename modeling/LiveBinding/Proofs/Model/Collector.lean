/-
# LiveBinding.Proofs.Model.Collector -- dependencies in first-seen order

A collector is told of an event on a hub, or of an attribute that was read, which means
the event that announces its change.  After any calls it holds the dependencies that it was
told of without those that repeat an earlier one (`firsts`), on whatever hubs they are.

The induction is on the last call.  A dependency that was told of before leaves the collector
as it is, and any other one comes last; `firsts` grows in the same way (`firsts_concat`).
-/
import Mathlib.Data.List.Induction
import LiveBinding.Proofs.Model.Reading

namespace LiveBinding

set_option autoImplicit false

/-! ## First occurrences -/

section

variable {α : Type} [DecidableEq α] {l : List α} {a : α}

/-- The members of a list that do not stand earlier in it, each at its place. -/
def firsts (l : List α) : List α :=
  (l.zipIdx.filter fun (member, place) => member ∉ l.take place).map (·.1)

theorem firsts_concat (l : List α) (a : α) :
    firsts (l ++ [a]) = if a ∈ l then firsts l else firsts l ++ [a] := by
  have before : ∀ member place, (member, place) ∈ l.zipIdx →
      (l ++ [a]).take place = l.take place := by
    intro member place listed
    have within := (List.mem_zipIdx listed).2.1
    exact List.take_append_of_le_length (by omega)
  have last : (l ++ [a]).take l.length = l := List.take_left
  have kept : (l.zipIdx.filter fun (member, place) => member ∉ (l ++ [a]).take place) =
      l.zipIdx.filter fun (member, place) => member ∉ l.take place := by
    refine List.filter_congr ?_
    rintro ⟨member, place⟩ listed
    show decide (member ∉ (l ++ [a]).take place) = decide (member ∉ l.take place)
    rw [before member place listed]
  rw [firsts, List.zipIdx_append, List.filter_append, kept, List.map_append]
  by_cases old : a ∈ l <;> simp [firsts, last, old]

theorem mem_firsts : a ∈ firsts l ↔ a ∈ l := by
  induction l using List.reverseRecOn with
  | nil => exact Iff.rfl
  | append_singleton before b ih =>
      rw [firsts_concat]
      split
      next old =>
        rw [ih, List.mem_append, List.mem_singleton, or_iff_left_of_imp]
        rintro rfl
        exact old
      next new => rw [List.mem_append, List.mem_append, ih]

end

/-! ## What a collector is told -/

inductive Recording where
  /-- Told of an event. -/
  | event (hub : Ref .hub) (name : String)
  /-- Told of an attribute that was read. -/
  | read (hub : Ref .hub) (name : String)

def Recording.dependency : Recording → Dependency
  | .event hub name => ⟨hub, name⟩
  | .read hub name => .ofRead hub name

def Dependency.hubsOf (event : String) (ds : List Dependency) : List (Ref .hub) :=
  (ds.filter (·.event = event)).map (·.hub)

namespace Dependency

variable {event : String} {hub : Ref .hub} {ds : List Dependency}

theorem mem_hubsOf : hub ∈ hubsOf event ds ↔ ⟨hub, event⟩ ∈ ds := by
  rw [hubsOf, List.mem_map]
  constructor
  · rintro ⟨⟨hub, name⟩, listed, rfl⟩
    obtain ⟨among, same⟩ := List.mem_filter.mp listed
    exact of_decide_eq_true same ▸ among
  · intro among
    exact ⟨⟨hub, event⟩, List.mem_filter.mpr ⟨among, decide_eq_true rfl⟩, rfl⟩

theorem hubsOf_concat (ds : List Dependency) (d : Dependency) :
    hubsOf event (ds ++ [d]) =
      if d.event = event then hubsOf event ds ++ [d.hub] else hubsOf event ds := by
  by_cases same : d.event = event <;> simp [hubsOf, same]

/-- Of the hubs that have events of one name each is kept, at its first place. -/
theorem hubsOf_firsts (event : String) (ds : List Dependency) :
    hubsOf event (firsts ds) = firsts (hubsOf event ds) := by
  induction ds using List.reverseRecOn with
  | nil => rfl
  | append_singleton before d ih =>
      rw [firsts_concat, hubsOf_concat, apply_ite (hubsOf event), hubsOf_concat, ih]
      by_cases same : d.event = event
      · subst same
        rw [if_pos rfl, if_pos rfl, firsts_concat]
        simp only [mem_hubsOf]
      · rw [if_neg same, if_neg same, ite_self]

end Dependency

namespace Collector

open Dependency (hubsOf hubsOf_firsts)

def collected (calls : List Recording) : Collector :=
  calls.foldl (fun c call => record call.dependency c) .empty

theorem collected_eq_recordAll (calls : List Recording) :
    collected calls = recordAll (calls.map (·.dependency)) .empty := by
  rw [recordAll, List.foldl_map]
  rfl

theorem recordAll_concat (ds : List Dependency) (d : Dependency) (c : Collector) :
    recordAll (ds ++ [d]) c = record d (recordAll ds c) :=
  List.foldl_append

theorem recordAll_eq_firsts (ds : List Dependency) : recordAll ds .empty = firsts ds := by
  induction ds using List.reverseRecOn with
  | nil => rfl
  | append_singleton before d ih =>
      rw [recordAll_concat, ih, record, firsts_concat]
      simp only [mem_firsts]

/-- Whatever calls were made, on whatever hubs, a collector holds the dependencies it was told
of, in the order in which it was, without those that repeat an earlier one.  So it holds none
twice, and events of one name on all the hubs that it was told of. -/
theorem collects_first_occurrences (calls : List Recording) :
    collected calls = firsts (calls.map (·.dependency)) ∧ (collected calls).Nodup ∧
      ∀ event, hubsOf event (collected calls) =
        firsts (hubsOf event (calls.map (·.dependency))) := by
  rw [collected_eq_recordAll]
  refine ⟨recordAll_eq_firsts _, nodup_recordAll List.nodup_nil, fun event => ?_⟩
  rw [recordAll_eq_firsts, hubsOf_firsts]

/-- The change of an attribute is the event of that name, and on another hub it is another. -/
example : collected [.read ⟨0⟩ "total", .event ⟨1⟩ "change:total", .event ⟨0⟩ "change:total",
      .event ⟨0⟩ "change", .read ⟨1⟩ "total"] =
    [⟨⟨0⟩, "change:total"⟩, ⟨⟨1⟩, "change:total"⟩, ⟨⟨0⟩, "change"⟩] := by decide

end Collector

end LiveBinding
