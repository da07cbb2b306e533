import Floppix.Lib.Region
import Mathlib.Data.List.Basic

/-! # Reads of memory that was given back

A trace of events, some of which read an address and some of which give back the
stretch of memory that starts at an address. The stretches are those that were in use
when the trace began.
-/

namespace Lifetime

open Layout

variable {ε : Type*} (reads gives : ε → Option Nat) (live : List Region)

/-- The address lies in a stretch of memory that is in use and was not given back. -/
def InUse (given : List Nat) (a : Nat) : Prop :=
  ∃ r ∈ live, r.addr ∉ given ∧ r.addr ≤ a ∧ a < r.stop

instance (given : List Nat) (a : Nat) : Decidable (InUse live given a) :=
  inferInstanceAs (Decidable (∃ r ∈ live, _ ∧ _ ∧ _))

def given (es : List ε) : List Nat := es.filterMap gives

/-- Every event reads memory that neither an earlier one nor anybody before has given
back. -/
def Kept : List Nat → List ε → Prop
  | _, [] => True
  | before, e :: es => (∀ a ∈ reads e, InUse live before a) ∧ Kept (before ++ (gives e).toList) es

instance Kept.decidable : ∀ (before : List Nat) (es : List ε),
    Decidable (Kept reads gives live before es)
  | _, [] => isTrue trivial
  | before, e :: es =>
      haveI := Kept.decidable (before ++ (gives e).toList) es
      inferInstanceAs (Decidable ((∀ a ∈ reads e, InUse live before a) ∧ _))

variable {reads gives live} {before : List Nat} {e : ε} {es es' : List ε}

theorem given_append : given gives (es ++ es') = given gives es ++ given gives es' :=
  List.filterMap_append ..

theorem given_cons : given gives (e :: es) = (gives e).toList ++ given gives es := by
  unfold given
  cases h : gives e <;> simp [h]

theorem kept_cons : Kept reads gives live before (e :: es) ↔
    (∀ a ∈ reads e, InUse live before a) ∧
      Kept reads gives live (before ++ (gives e).toList) es := Iff.rfl

theorem kept_append : Kept reads gives live before (es ++ es') ↔
    Kept reads gives live before es ∧ Kept reads gives live (before ++ given gives es) es' := by
  induction es generalizing before with
  | nil => simp [Kept, given]
  | cons e es ih =>
      rw [List.cons_append, kept_cons, kept_cons, ih, and_assoc, given_cons, List.append_assoc]

theorem kept_of_quiet (hgives : ∀ e ∈ es, gives e = none)
    (hreads : ∀ e ∈ es, ∀ a ∈ reads e, InUse live before a) :
    Kept reads gives live before es := by
  induction es with
  | nil => trivial
  | cons e es ih =>
      have hkept := ih (fun x hx => hgives x (List.mem_cons_of_mem e hx))
        fun x hx => hreads x (List.mem_cons_of_mem e hx)
      refine ⟨hreads e (List.mem_cons_self ..), ?_⟩
      rwa [hgives e (List.mem_cons_self ..), Option.toList_none, List.append_nil]

theorem inUse_iff (hheap : ∀ r ∈ live, ∀ q ∈ live, r ≠ q → Region.Apart r q) {r : Region}
    (hr : r ∈ live) {a : Nat} (hlo : r.addr ≤ a) (hhi : a < r.stop) :
    InUse live before a ↔ r.addr ∉ before := by
  constructor
  · rintro ⟨q, hq, hgiven, hqlo, hqhi⟩
    by_cases heq : r = q
    · rwa [heq]
    · have hapart := hheap r hr q hq heq
      simp only [Region.Apart] at hapart
      omega
  · exact fun hgiven => ⟨r, hr, hgiven, hlo, hhi⟩

end Lifetime
