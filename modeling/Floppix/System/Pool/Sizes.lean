import Mathlib.Algebra.GroupWithZero.Nat
import Mathlib.Data.Nat.Basic
import Mathlib.Algebra.Order.Group.Nat

/-! # Sizes in a pool

The arithmetic of `pool.c` on `size_t`: alignment, the number of pages of a memnode
and the sizes of its headers. The word, the page and the `sizeof` values belong to the
platform.
-/

namespace Floppix.Pools

structure Abi where
  /-- `FPX_ALIGN_SIZE` is two to this power. -/
  wordBits : Nat
  /-- The width of `size_t`. -/
  sizeBits : Nat
  pageSize : Nat
  sizeofMemnode : Nat
  sizeofPool : Nat
  sizeofMutex : Nat
  sizeofCleanup : Nat
  /-- `FPX_POOL_THREAD_SAFETY`. -/
  threadSafety : Bool

def maxPoolSlot : Nat := 20

namespace Abi

variable (A : Abi)

def word : Nat := 2 ^ A.wordBits

def sizeMax : Nat := 2 ^ A.sizeBits

def wrap (n : Nat) : Nat := n % A.sizeMax

def sub (a b : Nat) : Nat := A.wrap (a + (A.sizeMax - A.wrap b))

/-- `fpx_align_default`: the mask `~(b - 1)` clears the low bits. -/
def align (p : Nat) : Nat :=
  let q := A.wrap (p + (A.word - 1))
  q - q % A.word

def minAlloc : Nat := A.word <<< 1

def memnodeHeader : Nat := A.align A.sizeofMemnode

def poolHeader : Nat := A.align A.sizeofPool

def mutexHeader : Nat := A.align A.sizeofMutex

def alignAllocation (size : Nat) : Nat :=
  let alignSize := A.align size
  if alignSize < size then 0
  else if alignSize < A.minAlloc then A.minAlloc
  else alignSize

def getNpages (size : Nat) : Nat :=
  let totalSize := A.wrap (size + A.memnodeHeader)
  if totalSize < A.pageSize then 1 else totalSize / A.pageSize + 1

end Abi

/-- A platform: pages are made of words, the headers of a pool fit into one page, and so
does a cleanup node. -/
structure Platform extends Abi where
  page_pos : 0 < pageSize
  word_dvd_page : toAbi.word ∣ pageSize
  headers_fit : toAbi.memnodeHeader + toAbi.poolHeader + toAbi.mutexHeader ≤ pageSize
  cleanup_fits : toAbi.alignAllocation sizeofCleanup + toAbi.memnodeHeader < pageSize
  cleanup_pos : 0 < sizeofCleanup
  cleanup_aligns : toAbi.alignAllocation sizeofCleanup ≠ 0
  pages_fit : (maxPoolSlot + 2) * pageSize ≤ toAbi.sizeMax

def lp64 : Platform where
  wordBits := 3
  sizeBits := 64
  pageSize := 4096
  sizeofMemnode := 48
  sizeofPool := 216
  sizeofMutex := 40
  sizeofCleanup := 24
  threadSafety := true
  page_pos := by decide
  word_dvd_page := by decide
  headers_fit := by decide
  cleanup_fits := by decide
  cleanup_pos := by decide
  cleanup_aligns := by decide
  pages_fit := by decide

variable (P : Platform)

namespace Abi

variable (A : Abi)

theorem word_pos : 0 < A.word := Nat.two_pow_pos _

theorem wrap_lt {n : Nat} : A.wrap n < A.sizeMax := Nat.mod_lt _ (Nat.two_pow_pos _)

theorem wrap_of_lt {n : Nat} (h : n < A.sizeMax) : A.wrap n = n := Nat.mod_eq_of_lt h

theorem sub_of_le {a b : Nat} (hba : b ≤ a) (ha : a < A.sizeMax) : A.sub a b = a - b := by
  have hb : A.wrap b = b := A.wrap_of_lt (Nat.lt_of_le_of_lt hba ha)
  have hsum : a + (A.sizeMax - b) = a - b + A.sizeMax := by omega
  rw [sub, hb, wrap, hsum, Nat.add_mod_right, Nat.mod_eq_of_lt (by omega)]

theorem wrap_add_wrap (a b : Nat) : A.wrap (A.wrap a + b) = A.wrap (a + b) := Nat.mod_add_mod ..

/-- The difference of two sums that wrapped is the difference of the sums, wrapped. -/
theorem sub_wrap {a b : Nat} (hba : b ≤ a) : A.sub (A.wrap a) (A.wrap b) = A.wrap (a - b) := by
  have hdiv : A.sizeMax * (b / A.sizeMax) + A.wrap b = b := Nat.div_add_mod ..
  have hlt : A.wrap b < A.sizeMax := A.wrap_lt
  have hsum : a + (A.sizeMax - A.wrap b) = a - b + A.sizeMax * (b / A.sizeMax + 1) := by
    rw [Nat.mul_add, Nat.mul_one]
    omega
  rw [sub, A.wrap_of_lt hlt, wrap_add_wrap, hsum, wrap, Nat.add_mul_mod_self_left, wrap]

theorem foldl_wrap {α : Type*} (f : α → Nat) (xs : List α) (a : Nat) :
    xs.foldl (fun size x => A.wrap (size + f x)) (A.wrap a) = A.wrap (a + (xs.map f).sum) := by
  induction xs generalizing a with
  | nil => simp
  | cons x xs ih =>
      rw [List.foldl_cons, wrap_add_wrap, ih, List.map_cons, List.sum_cons, Nat.add_assoc]

theorem word_dvd_align (p : Nat) : A.word ∣ A.align p := Nat.dvd_sub_mod _

theorem word_dvd_minAlloc : A.word ∣ A.minAlloc := by
  rw [minAlloc, Nat.shiftLeft_eq]
  exact Nat.dvd_mul_right ..

theorem minAlloc_pos : 0 < A.minAlloc := by
  rw [minAlloc, Nat.shiftLeft_eq]
  exact Nat.mul_pos A.word_pos (by decide)

/-- What a size is aligned to: at least as much, in words. -/
theorem alignAllocation_spec {size : Nat} (h : A.alignAllocation size ≠ 0) :
    size ≤ A.alignAllocation size ∧ A.minAlloc ≤ A.alignAllocation size ∧
      A.word ∣ A.alignAllocation size := by
  simp only [alignAllocation] at h ⊢
  split at h
  · exact absurd rfl h
  · rename_i hle
    rw [if_neg hle]
    split
    · exact ⟨by omega, Nat.le_refl _, A.word_dvd_minAlloc⟩
    · exact ⟨by omega, by omega, A.word_dvd_align _⟩

end Abi

theorem Platform.page_lt {n : Nat} (h : n ≤ maxPoolSlot + 1) : n * P.pageSize < P.sizeMax := by
  have hmax := P.pages_fit
  have hmul : n * P.pageSize ≤ (maxPoolSlot + 1) * P.pageSize := Nat.mul_le_mul_right _ h
  have hpos := P.page_pos
  simp only [maxPoolSlot] at *
  omega

theorem Platform.npages_pos (size : Nat) : 0 < P.getNpages size := by
  unfold Abi.getNpages
  simp only
  split
  · exact Nat.one_pos
  · exact Nat.succ_pos _

/-- Without a wrap the pages hold the size and the header. -/
theorem Platform.npages_spec {size : Nat} (h : size + P.memnodeHeader < P.sizeMax) :
    size + P.memnodeHeader < P.getNpages size * P.pageSize := by
  unfold Abi.getNpages
  simp only [P.wrap_of_lt h]
  split
  · omega
  · rw [Nat.add_mul, Nat.one_mul]
    have hdiv := Nat.div_add_mod (size + P.memnodeHeader) P.pageSize
    have hmod := Nat.mod_lt (size + P.memnodeHeader) P.page_pos
    rw [Nat.mul_comm] at hdiv
    omega

/-- A cleanup node takes one page at most. -/
theorem Platform.npages_cleanup : P.getNpages (P.alignAllocation P.sizeofCleanup) = 1 := by
  have hfits := P.cleanup_fits
  have hlt : P.pageSize < P.sizeMax := by
    have := P.page_lt (n := 1) (by decide)
    omega
  unfold Abi.getNpages
  simp only [P.wrap_of_lt (Nat.lt_trans hfits hlt), if_pos hfits]

end Floppix.Pools
