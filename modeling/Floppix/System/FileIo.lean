import Floppix.Lib.Patching
import Floppix.System.Errno
import Floppix.Util.Bytes

/-! # Reading and writing files

`fpx_file_read` and `fpx_file_write` of POSIX move the position of the descriptor first. Both
count up an offset of their own by what was read or written. One of them makes a single call,
the other as many as it takes.
-/

namespace Floppix.FileIo

open Patching

structure OpenFile where
  content : Bytes
  /-- The position of the descriptor. -/
  position : Nat
  offset : Nat
  /-- history: what successive calls of `write` have stored, each with its position -/
  writes : List (Nat × Bytes)

/-- The `write`s of the system: what the call of a number answers when it is asked to write so
many bytes. It fails, or it writes some of them. -/
structure Writes where
  answer : Nat → Nat → Except Errno Nat
  le : ∀ {call asked n}, answer call asked = .ok n → n ≤ asked
  pos : ∀ {call asked n}, answer call asked = .ok n → 0 < asked → 0 < n

/-! ## The functions -/

/-- `fpx_file_read`, with the bytes it has put into the buffer; their number is what it
returns. -/
def fileRead (lseek : Option Errno) (answer : Except Errno Nat) (size offset : Nat)
    (file : OpenFile) : Except Errno Bytes × OpenFile :=
  match lseek with
  | some e => (.error e, file)
  | none =>
      let file := { file with position := offset }
      match answer with
      | .error e => (.error e, file)
      | .ok n =>
          let bytes := ((file.content.drop file.position).take size).take n
          (.ok bytes, { file with
            position := file.position + bytes.length
            offset := file.offset + bytes.length })

def OpenFile.write (file : OpenFile) (data : Bytes) : OpenFile :=
  { file with
    content := patch 0 file.content file.position data
    position := file.position + data.length
    writes := file.writes ++ [(file.position, data)] }

def writeLoop (os : Writes) (buf : Bytes) : Nat → Nat → Nat → Nat → OpenFile →
    Option (Int × OpenFile)
  | 0, _, _, _, _ => none
  | rounds + 1, call, written, size, file =>
      match os.answer call size with
      | .error _ => some (-1, file)
      | .ok n =>
          let file := file.write ((buf.drop written).take n)
          let file := { file with offset := file.offset + n }
          let written := written + n
          if n = size then some (written, file)
          else writeLoop os buf rounds (call + 1) written (size - n) file

def fileWrite (lseek : Option Errno) (os : Writes) (rounds : Nat) (buf : Bytes) (size offset : Nat)
    (file : OpenFile) : Option (Int × OpenFile) :=
  match lseek with
  | some _ => some (-1, file)
  | none => writeLoop os buf rounds 0 0 size { file with position := offset }

/-! ## What is stored -/

structure Stored (file : OpenFile) (data : Bytes) (file' : OpenFile) : Prop where
  content : file'.content = patch 0 file.content file.position data
  position : file'.position = file.position + data.length
  offset : file'.offset = file.offset + data.length
  writes : ∃ pieces, pieces.flatten = data ∧
    file'.writes = file.writes ++ placed file.position pieces

variable {file file' file'' : OpenFile} {data more : Bytes}

theorem Stored.one (file : OpenFile) (data : Bytes) :
    Stored file data { file.write data with offset := file.offset + data.length } where
  content := rfl
  position := rfl
  offset := rfl
  writes := ⟨[data], List.append_nil data, rfl⟩

theorem Stored.trans (h : Stored file data file') (h' : Stored file' more file'') :
    Stored file (data ++ more) file'' where
  content := by rw [h'.content, h.content, h.position, patch_patch]
  position := by rw [h'.position, h.position, List.length_append, Nat.add_assoc]
  offset := by rw [h'.offset, h.offset, List.length_append, Nat.add_assoc]
  writes := by
    obtain ⟨pieces, rfl, hwrites⟩ := h.writes
    obtain ⟨behind, rfl, hwrites'⟩ := h'.writes
    refine ⟨pieces ++ behind, List.flatten_append, ?_⟩
    rw [hwrites', hwrites, h.position, placed_append, List.append_assoc]

/-! ## Writing -/

/-- A `write` of the loop fails, when so many bytes are to be written from the call of this
number on. -/
inductive WriteFails (os : Writes) : Nat → Nat → Prop
  | now {call size : Nat} {e : Errno} (h : os.answer call size = .error e) : WriteFails os call size
  | later {call size n : Nat} (h : os.answer call size = .ok n) (hmore : n ≠ size)
      (hrest : WriteFails os (call + 1) (size - n)) : WriteFails os call size

variable {os : Writes} {buf : Bytes} {rounds call written size n : Nat}

theorem writeFails_iff (h : os.answer call size = .ok n) :
    WriteFails os call size ↔ n ≠ size ∧ WriteFails os (call + 1) (size - n) := by
  constructor
  · intro hfails
    cases hfails with
    | now h' =>
        rw [h] at h'
        cases h'
    | later h' hmore hrest =>
        rw [h] at h'
        cases h'
        exact ⟨hmore, hrest⟩
  · exact fun hrest => .later h hrest.1 hrest.2

structure Finished (os : Writes) (buf : Bytes) (call written size : Nat) (file : OpenFile)
    (r : Int × OpenFile) : Prop where
  fails : WriteFails os call size → r.1 = -1
  stores : ¬ WriteFails os call size →
    r.1 = (written + size : Nat) ∧ Stored file ((buf.drop written).take size) r.2

/-- The bytes of one call and those of the rest. -/
theorem take_drop_parts (h : n ≤ size) : (buf.drop written).take size =
    (buf.drop written).take n ++ (buf.drop (written + n)).take (size - n) := by
  rw [← List.drop_drop, ← List.take_add, Nat.add_sub_cancel' h]

theorem writeLoop_finished (os : Writes) (call : Nat) (file : OpenFile)
    (hbuf : written + size ≤ buf.length) (hrounds : size < rounds) :
    ∃ r, writeLoop os buf rounds call written size file = some r ∧
      Finished os buf call written size file r := by
  induction rounds generalizing call written size file with
  | zero => exact absurd hrounds (Nat.not_lt_zero _)
  | succ rounds ih =>
      rw [writeLoop]
      cases hanswer : os.answer call size with
      | error e =>
          exact ⟨_, rfl, fun _ => rfl, fun hnot => absurd (.now hanswer) hnot⟩
      | ok n =>
          have hle := os.le hanswer
          have hlength : ((buf.drop written).take n).length = n := by
            rw [List.length_take, List.length_drop]
            omega
          have hone := Stored.one file ((buf.drop written).take n)
          rw [hlength] at hone
          dsimp only
          by_cases hlast : n = size
          · subst hlast
            refine ⟨_, if_pos rfl, fun hfails => ?_, fun _ => ⟨rfl, hone⟩⟩
            exact absurd rfl ((writeFails_iff hanswer).mp hfails).1
          · -- the rest is shorter, since at least one byte has been written
            have hpos := os.pos hanswer (by omega)
            obtain ⟨r, hrun, hfinished⟩ := ih (call + 1)
              { file.write ((buf.drop written).take n) with offset := file.offset + n }
              (show written + n + (size - n) ≤ buf.length by omega) (by omega)
            refine ⟨r, (if_neg hlast).trans hrun, fun hfails => ?_, fun hnot => ?_⟩
            · exact hfinished.fails ((writeFails_iff hanswer).mp hfails).2
            · obtain ⟨hreturn, hstored⟩ := hfinished.stores fun hrest =>
                hnot ((writeFails_iff hanswer).mpr ⟨hlast, hrest⟩)
              refine ⟨?_, ?_⟩
              · rw [hreturn]
                omega
              · rw [take_drop_parts hle]
                exact hone.trans hstored

/-- `fpx_file_write` ends. A result that is not negative is the size, and the bytes of the buffer
have then been written once, one behind the other from the offset on, and are counted. The result
is `-1` exactly if `lseek` or one of the `write`s fails. -/
theorem fileWrite_exact (lseek : Option Errno) (os : Writes) (buf : Bytes) (size offset : Nat)
    (file : OpenFile) (rounds : Nat) (hbuf : size ≤ buf.length) (hrounds : size < rounds) :
    ∃ rv file', fileWrite lseek os rounds buf size offset file = some (rv, file') ∧
      (0 ≤ rv → rv = size ∧
        (∃ pieces, pieces.flatten = buf.take size ∧
          file'.writes = file.writes ++ placed offset pieces) ∧
        file'.content = patch 0 file.content offset (buf.take size) ∧
        file'.offset = file.offset + size) ∧
      (rv = -1 ↔ lseek ≠ none ∨ WriteFails os 0 size) ∧ (0 ≤ rv ∨ rv = -1) := by
  have hnegative : ¬ (0 : Int) ≤ -1 := by decide
  unfold fileWrite
  cases lseek with
  | some e =>
      refine ⟨-1, file, rfl, fun h => absurd h hnegative, ?_, Or.inr rfl⟩
      exact iff_of_true rfl (Or.inl (Option.some_ne_none e))
  | none =>
      rw [or_iff_right (fun h => h rfl)]
      have hbuf' : 0 + size ≤ buf.length := by omega
      obtain ⟨⟨rv, file'⟩, hrun, hfinished⟩ :=
        writeLoop_finished os 0 { file with position := offset } hbuf' hrounds
      refine ⟨rv, file', hrun, ?_⟩
      by_cases hfails : WriteFails os 0 size
      · have hreturn : rv = -1 := hfinished.fails hfails
        rw [hreturn]
        exact ⟨fun h => absurd h hnegative, iff_of_true rfl hfails, Or.inr rfl⟩
      · obtain ⟨hreturn, hstored⟩ := hfinished.stores hfails
        rw [Nat.zero_add] at hreturn
        rw [List.drop_zero] at hstored
        have hsize : (buf.take size).length = size := by
          rw [List.length_take, Nat.min_eq_left hbuf]
        have hoffset := hstored.offset
        rw [hsize] at hoffset
        have hpositive : 0 ≤ rv := by
          rw [show rv = size from hreturn]
          exact Int.natCast_nonneg size
        refine ⟨fun _ => ⟨hreturn, hstored.writes, hstored.content, hoffset⟩, ?_, Or.inl hpositive⟩
        refine iff_of_false (fun h => ?_) hfails
        rw [h] at hpositive
        exact hnegative hpositive

theorem atMostThree_le {asked n : Nat}
    (h : (.ok (min asked 3) : Except Errno Nat) = .ok n) : n ≤ asked := by
  cases h
  exact Nat.min_le_left asked 3

theorem atMostThree_pos {asked n : Nat}
    (h : (.ok (min asked 3) : Except Errno Nat) = .ok n) (hasked : 0 < asked) : 0 < n := by
  cases h
  exact Nat.lt_min.mpr ⟨hasked, by decide⟩

def atMostThree : Writes where
  answer _ asked := .ok (min asked 3)
  le := atMostThree_le
  pos := atMostThree_pos

/-- Eight bytes in three pieces, behind the end of a file of one byte. -/
theorem fileWrite_exact_three :
    ∃ rv file', fileWrite none atMostThree 9 (ascii "abcdefgh") 8 2 ⟨[0x7a], 0, 0, []⟩ =
        some (rv, file') ∧
      (0 ≤ rv → rv = (8 : Nat) ∧
        (∃ pieces, pieces.flatten = (ascii "abcdefgh").take 8 ∧
          file'.writes = [] ++ placed 2 pieces) ∧
        file'.content = patch 0 [0x7a] 2 ((ascii "abcdefgh").take 8) ∧ file'.offset = 0 + 8) ∧
      (rv = -1 ↔ (none : Option Errno) ≠ none ∨ WriteFails atMostThree 0 8) ∧
      (0 ≤ rv ∨ rv = -1) :=
  fileWrite_exact none atMostThree (ascii "abcdefgh") 8 2 ⟨[0x7a], 0, 0, []⟩ 9 (by decide)
    (by decide)

end Floppix.FileIo
