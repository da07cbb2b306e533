import Floppix.Core.Config.Inclusion
import Floppix.Core.Listen
import Floppix.Util.Numbers
import Mathlib.Data.List.DropRight
import Mathlib.Data.List.GetD

/-! # Listen addresses

`fpx_config_parse_addr_port` scans a string backwards over its last digits, takes what is
behind a colon for the port, and what is in front for the address. A pointer `pos` that may
stand in front of the string is known by `pos + 1`, counted from the start of the string.
-/

namespace Floppix.Configuration

inductive AddrType where
  | invalid
  | ipv4
  | ipv6
deriving DecidableEq, Repr

/-- The returned value, what was assigned to `*addr` and `*port`, and what was logged. -/
structure AddrPort where
  rv : AddrType
  addr : Option Bytes
  port : Option Bytes
  logged : List Bytes
deriving DecidableEq, Repr

def charColon : UInt8 := 0x3A
def charOpen : UInt8 := 0x5B
def charClose : UInt8 := 0x5D

def quoting (before quoted after : Bytes) : Bytes := before ++ quoted ++ after

def outOfRange (port : Bytes) : Bytes :=
  quoting (ascii "Port value \"") port (ascii "\" out of range (1-65535)")

def unexpectedColon (str : Bytes) : Bytes :=
  quoting (ascii "Unexpected \":\" in the string \"") str (ascii "\"")

def missingClose (str : Bytes) : Bytes :=
  quoting (ascii "Missing \"]\" in the string \"") str (ascii "\"")

def unexpectedClose (str : Bytes) : Bytes :=
  quoting (ascii "Unexpected \"]\" in the string \"") str (ascii "\"")

/-- The `while` loop over the last digits. -/
def scanDigits (str : Bytes) : Nat → Nat
  | 0 => 0
  | pos + 1 => if isdigit (str.getD pos 0) then scanDigits str pos else pos + 1

/-- A copy into memory of the pool, by the allocation number `used`. The result of
`fpx_palloc` is not looked at. -/
def pallocCopy (answers : PoolAnswers) (used : Nat) (bytes : Bytes) : Except Undefined Bytes :=
  match answers used with
  | some _ => .error .nullWrite
  | none => .ok bytes

/-- The block under `if (pos < str)`. -/
def portOnly (answers : PoolAnswers) (str : Bytes) : Except Undefined AddrPort := do
  let intPort ← atoi str str.length
  if intPort < 1 ∨ 65535 < intPort then .ok ⟨.invalid, none, none, [outOfRange str]⟩
  else
    let port ← pallocCopy answers 0 str
    .ok ⟨.ipv4, some (ascii "0.0.0.0"), some port, []⟩

/-- The block under `if (*pos == ':' && pos < end)`: it returns, or it leaves the port, the
new `end + 1` and the number of allocations. -/
def takePort (answers : PoolAnswers) (str : Bytes) (after : Nat) :
    Except Undefined (AddrPort ⊕ Option Bytes × Nat × Nat) :=
  if str.getD (after - 1) 0 = charColon ∧ after < str.length then
    if after = 1 then .ok (.inl ⟨.invalid, none, none, [unexpectedColon str]⟩)
    else do
      let intPort ← atoi (str.drop after) (str.length - after)
      if intPort < 1 ∨ 65535 < intPort then
        .ok (.inl ⟨.invalid, none, none, [outOfRange (str.drop after)]⟩)
      else
        let port ← pallocCopy answers 0 (str.drop after)
        .ok (.inr (some port, after - 1, 1))
  else .ok (.inr (none, str.length, 0))

/-- The rest of the function, with `stop` for `end + 1`. -/
def takeAddr (answers : PoolAnswers) (str : Bytes) (port : Option Bytes) (stop used : Nat) :
    Except Undefined AddrPort :=
  let closeBracket := strchr str charClose
  if str.getD 0 0 = charOpen then
    match closeBracket with
    | none => .ok ⟨.invalid, none, port, [missingClose str]⟩
    | some close =>
        if str.getD (stop - 1) 0 ≠ charClose then .ok ⟨.invalid, none, port, [missingClose str]⟩
        else do
          let addr ← pallocCopy answers used ((str.drop 1).take (close - 1))
          .ok ⟨.ipv6, some addr, port, []⟩
  else if closeBracket.isSome then .ok ⟨.invalid, none, port, [unexpectedClose str]⟩
  else do
    let addr ← pallocCopy answers used (str.take stop)
    .ok ⟨.ipv4, some addr, port, []⟩

def parseAddrPort (answers : PoolAnswers) (str : Bytes) : Except Undefined AddrPort :=
  let after := scanDigits str str.length
  if after = 0 then portOnly answers str
  else do
    match ← takePort answers str after with
    | .inl out => .ok out
    | .inr (port, stop, used) => takeAddr answers str port stop used

def afInet : Int := 2
def afInet6 : Int := 10

/-- `fpx_listener_init_ipv4` and `fpx_listener_init_ipv6`. -/
def listenerInit (family : Int) (addr port : Bytes) : Listening.Listener where
  textAddr := addr
  textPort := port
  fd := none
  sockaddr := ⟨family, []⟩

def handlerListen (answers : PoolAnswers) (arg : Bytes) (listeners : List Listening.Listener) :
    Except Undefined (Err × List Listening.Listener) :=
  match answers 0 with
  | some e => .ok (e.code, listeners)
  | none => do
      let out ← parseAddrPort (fun n => answers (n + 1)) arg
      match out.rv, out.addr, out.port with
      | .invalid, _, _ => .ok (Err.configSyntax, listeners)
      | .ipv4, some addr, some port => .ok (Err.ok, listeners ++ [listenerInit afInet addr port])
      | .ipv6, some addr, some port => .ok (Err.ok, listeners ++ [listenerInit afInet6 addr port])
      | _, _, _ => .error .unassigned

/-! ## The scan -/

variable {str host port rest : Bytes} {used : Nat} {out : AddrPort}

theorem scanDigits_eq (str : Bytes) {n : Nat} (hn : n ≤ str.length) :
    scanDigits str n = ((str.take n).rdropWhile isdigit).length := by
  induction n with
  | zero => simp [scanDigits]
  | succ n ih =>
      have hlt : n < str.length := hn
      have htake : str.take (n + 1) = str.take n ++ [str.getD n 0] := by
        rw [List.take_succ_eq_append_getElem hlt, List.getD_eq_getElem _ _ hlt]
      rw [scanDigits, htake]
      by_cases hdigit : isdigit (str.getD n 0) = true
      · rw [if_pos hdigit, List.rdropWhile_concat_pos _ _ _ hdigit, ih (Nat.le_of_lt hlt)]
      · rw [if_neg hdigit, List.rdropWhile_concat_neg _ _ _ hdigit, List.length_append,
          List.length_take_of_le (Nat.le_of_lt hlt), List.length_singleton]

theorem scanDigits_length (str : Bytes) :
    scanDigits str str.length = (str.rdropWhile isdigit).length := by
  rw [scanDigits_eq str (Nat.le_refl _), List.take_length]

theorem rdropWhile_append_digits (front : Bytes) (h : ∀ c ∈ port, isdigit c = true) :
    (front ++ port).rdropWhile isdigit = front.rdropWhile isdigit := by
  rw [List.rdropWhile, List.reverse_append, List.dropWhile_append_of_pos, List.rdropWhile]
  exact fun c hc => h c (List.mem_reverse.mp hc)

theorem scanDigits_port (host : Bytes) (h : ∀ c ∈ port, isdigit c = true) :
    scanDigits (host ++ charColon :: port) (host ++ charColon :: port).length =
      host.length + 1 := by
  have hsplit : host ++ charColon :: port = (host ++ [charColon]) ++ port := by simp
  rw [scanDigits_length, hsplit, rdropWhile_append_digits _ h,
    List.rdropWhile_concat_neg _ _ _ (by decide), List.length_append, List.length_singleton]

/-! ## The port -/

def InRange (port : Bytes) : Prop := IsNumber port ∧ 1 ≤ decimal port ∧ decimal port ≤ 65535

instance (port : Bytes) : Decidable (InRange port) := inferInstanceAs (Decidable (_ ∧ _ ∧ _))

theorem atoi_inRange (port : Bytes) :
    ∃ n, atoi port port.length = .ok n ∧ (n < 1 ∨ 65535 < n ↔ ¬ InRange port) := by
  refine ⟨_, ato_eq intType (Nat.le_refl _), ?_⟩
  have hmax : 65535 ≤ intType.max := by decide
  rw [List.take_length]
  unfold InRange
  split
  · rename_i h
    rw [and_iff_right h.1]
    omega
  · rename_i h
    refine iff_of_true (Or.inl (by decide)) fun hrange => h ⟨hrange.1, ?_⟩
    omega

theorem portOnly_eq (str : Bytes) : portOnly plenty str =
    .ok (if InRange str then ⟨.ipv4, some (ascii "0.0.0.0"), some str, []⟩
      else ⟨.invalid, none, none, [outOfRange str]⟩) := by
  obtain ⟨n, hn, hrange⟩ := atoi_inRange str
  simp only [portOnly, hn, Bind.bind, Except.bind]
  by_cases h : InRange str
  · rw [if_neg (mt hrange.mp (not_not.mpr h)), if_pos h]
    rfl
  · rw [if_pos (hrange.mpr h), if_neg h]

theorem takePort_port (host : Bytes) (hport : IsNumber port) :
    takePort plenty (host ++ charColon :: port) (host.length + 1) =
      .ok (if host = [] then
          .inl ⟨.invalid, none, none, [unexpectedColon (host ++ charColon :: port)]⟩
        else if InRange port then .inr (some port, host.length, 1)
        else .inl ⟨.invalid, none, none, [outOfRange port]⟩) := by
  obtain ⟨n, hn, hrange⟩ := atoi_inRange port
  have hcolon : (host ++ charColon :: port).getD (host.length + 1 - 1) 0 = charColon := by simp
  have hlength : host.length + 1 < (host ++ charColon :: port).length := by
    have hpos := List.length_pos_iff.mpr hport.1
    simp only [List.length_append, List.length_cons]
    omega
  have hdrop : (host ++ charColon :: port).drop (host.length + 1) = port := by simp
  have hleft : (host ++ charColon :: port).length - (host.length + 1) = port.length := by
    simp only [List.length_append, List.length_cons]
    omega
  rw [takePort, if_pos ⟨hcolon, hlength⟩, hdrop, hleft, hn]
  simp only [Bind.bind, Except.bind, Nat.add_sub_cancel]
  by_cases hhost : host = []
  · rw [if_pos hhost, if_pos (by simp [hhost])]
  · have hpos := List.length_pos_iff.mpr hhost
    rw [if_neg hhost, if_neg (by omega)]
    by_cases h : InRange port
    · rw [if_neg (mt hrange.mp (not_not.mpr h)), if_pos h]
      rfl
    · rw [if_pos (hrange.mpr h), if_neg h]

/-! ## The address -/

theorem strchr_eq_none_iff {c : UInt8} : strchr str c = none ↔ c ∉ str := by
  simp only [strchr, List.findIdx?_eq_none_iff, decide_eq_false_iff_not]
  exact ⟨fun h hc => h c hc rfl, fun h x hx heq => h (heq ▸ hx)⟩

theorem take_of_strchr {c : UInt8} {i : Nat} (h : strchr str c = some i) :
    str.take i = str.takeWhile fun x => x ≠ c := by
  induction str generalizing i with
  | nil => cases h
  | cons x str ih =>
      simp only [strchr, List.findIdx?_cons] at h ih
      by_cases hx : x = c
      · simp only [hx, decide_true, if_true, Option.some_inj] at h
        simp [← h, hx]
      · simp only [hx, decide_false, Bool.false_eq_true, if_false, Option.map_eq_some_iff] at h
        obtain ⟨j, hj, rfl⟩ := h
        simp [hx, ih hj]

def Bracketed (host : Bytes) : Prop :=
  host.head? = some charOpen ∧ host.getLast? = some charClose

instance (host : Bytes) : Decidable (Bracketed host) := inferInstanceAs (Decidable (_ ∧ _))

/-- A host that is refused for its brackets. -/
def Misbracketed (host : Bytes) : Prop :=
  if host.head? = some charOpen then host.getLast? ≠ some charClose else charClose ∈ host

instance (host : Bytes) : Decidable (Misbracketed host) := by
  unfold Misbracketed
  infer_instance

def inside (host : Bytes) : Bytes := (host.drop 1).takeWhile fun x => x ≠ charClose

def hostAddr (host : Bytes) (port : Option Bytes) (str : Bytes) : AddrPort :=
  if Misbracketed host then ⟨.invalid, none, port,
    [if host.head? = some charOpen then missingClose str else unexpectedClose str]⟩
  else if host.head? = some charOpen then ⟨.ipv6, some (inside host), port, []⟩
  else ⟨.ipv4, some host, port, []⟩

theorem takeWhile_append_of_mem {c : UInt8} (hc : c ∈ str) :
    (str ++ rest).takeWhile (fun x => x ≠ c) = str.takeWhile fun x => x ≠ c := by
  rw [List.takeWhile_append, if_neg]
  intro hlength
  have hall := List.takeWhile_eq_self_iff.mp
    ((List.takeWhile_prefix fun x => decide (x ≠ c)).eq_of_length hlength)
  simpa using hall c hc

theorem getD_last (hhost : host ≠ []) (rest : Bytes) :
    some ((host ++ rest).getD (host.length - 1) 0) = host.getLast? := by
  have hpos := List.length_pos_iff.mpr hhost
  rw [List.getD_eq_getElem?_getD, List.getElem?_append_left (by omega), List.getLast?_eq_getElem?,
    List.getElem?_eq_getElem (by omega), Option.getD_some]

/-- The brackets of the host decide, where there are none behind it. -/
theorem takeAddr_eq (hhost : host ≠ []) (hrest : charClose ∉ rest) (port : Option Bytes)
    (used : Nat) : takeAddr plenty (host ++ rest) port host.length used =
      .ok (hostAddr host port (host ++ rest)) := by
  have hlast := getD_last hhost rest
  obtain ⟨c, t, rfl⟩ := List.exists_cons_of_ne_nil hhost
  have hfirst : ((c :: t) ++ rest).getD 0 0 = c := rfl
  have hmem : charClose ∈ (c :: t) ++ rest ↔ charClose ∈ c :: t := by
    rw [List.mem_append, or_iff_left hrest]
  rw [takeAddr, hfirst]
  simp only [hostAddr, Misbracketed, List.head?_cons, Option.some_inj]
  by_cases hc : c = charOpen
  · simp only [hc, if_true] at hlast hmem ⊢
    cases hchr : strchr ((charOpen :: t) ++ rest) charClose with
    | none =>
        have hnot := mt hmem.mpr (strchr_eq_none_iff.mp hchr)
        rw [if_pos fun h => hnot (List.mem_of_getLast? h)]
    | some close =>
        by_cases hclose : (charOpen :: t).getLast? = some charClose
        · rw [if_neg (not_not.mpr hclose)]
          rw [hclose, Option.some_inj] at hlast
          simp only [hlast, ne_eq, not_true_eq_false, if_false]
          have hin : charClose ∈ t := by
            have := List.mem_of_getLast? hclose
            simpa [charOpen, charClose] using this
          have hinside : (((charOpen :: t) ++ rest).drop 1).take (close - 1) =
              inside (charOpen :: t) := by
            simp only [strchr, List.cons_append, List.findIdx?_cons] at hchr
            rw [if_neg (by decide), Option.map_eq_some_iff] at hchr
            obtain ⟨i, hi, rfl⟩ := hchr
            change (t ++ rest).take i = t.takeWhile fun x => x ≠ charClose
            rw [take_of_strchr hi, takeWhile_append_of_mem hin]
          rw [hinside]
          rfl
        · have hne : ((charOpen :: t) ++ rest).getD ((charOpen :: t).length - 1) 0 ≠ charClose :=
            fun h => hclose (hlast ▸ congrArg some h)
          rw [if_pos hclose]
          simp only [hne, ne_eq, not_false_eq_true, if_true]
  · simp only [hc, if_false]
    by_cases hin : charClose ∈ c :: t
    · have hsome : (strchr ((c :: t) ++ rest) charClose).isSome = true := by
        rw [← Option.ne_none_iff_isSome]
        exact fun h => strchr_eq_none_iff.mp h (hmem.mpr hin)
      rw [if_pos hsome, if_pos hin]
    · have hnone : strchr ((c :: t) ++ rest) charClose = none :=
        strchr_eq_none_iff.mpr (mt hmem.mp hin)
      rw [hnone, if_neg (by simp), if_neg hin, List.take_left' rfl]
      rfl

/-! ## The three accepting paths -/

theorem parseAddrPort_digits (h : ∀ c ∈ str, isdigit c = true) :
    parseAddrPort plenty str = .ok (if InRange str
      then ⟨.ipv4, some (ascii "0.0.0.0"), some str, []⟩
      else ⟨.invalid, none, none, [outOfRange str]⟩) := by
  have hscan : scanDigits str str.length = 0 := by
    rw [scanDigits_length, List.length_eq_zero_iff, List.rdropWhile_eq_nil_iff]
    exact h
  rw [parseAddrPort, hscan, ← portOnly_eq]
  rfl

theorem charClose_not_mem (h : ∀ c ∈ port, isdigit c = true) : charClose ∉ charColon :: port := by
  intro hmem
  rcases List.mem_cons.mp hmem with hmem | hmem
  · exact absurd hmem (by decide)
  · exact absurd (h _ hmem) (by decide)

theorem parseAddrPort_port (host : Bytes) (hport : IsNumber port) :
    parseAddrPort plenty (host ++ charColon :: port) =
      .ok (if host = [] then
          ⟨.invalid, none, none, [unexpectedColon (host ++ charColon :: port)]⟩
        else if InRange port then hostAddr host (some port) (host ++ charColon :: port)
        else ⟨.invalid, none, none, [outOfRange port]⟩) := by
  rw [parseAddrPort, scanDigits_port host hport.2]
  simp only [Nat.add_eq_zero_iff, Nat.one_ne_zero, and_false, if_false, takePort_port host hport,
    Bind.bind, Except.bind]
  by_cases hhost : host = []
  · simp only [hhost, if_true]
  · simp only [hhost, if_false]
    by_cases hrange : InRange port
    · simp only [hrange, if_true]
      exact takeAddr_eq hhost (charClose_not_mem hport.2) (some port) 1
    · simp only [hrange, if_false]

theorem parseAddrPort_host (hdigits : ¬ ∀ c ∈ str, isdigit c = true)
    (hport : ¬ ∃ host port, IsNumber port ∧ str = host ++ charColon :: port) :
    parseAddrPort plenty str = .ok (hostAddr str none str) := by
  have hne : str ≠ [] := fun h => hdigits (by simp [h])
  have hfront : str.rdropWhile isdigit ≠ [] := fun h =>
    hdigits (List.rdropWhile_eq_nil_iff.mp h)
  have hback : ∀ c ∈ str.rtakeWhile isdigit, isdigit c = true := fun c hc =>
    List.mem_rtakeWhile_imp hc
  have hsplit : str.rdropWhile isdigit ++ str.rtakeWhile isdigit = str :=
    List.rdropWhile_append_rtakeWhile
  have hlast := getD_last hfront (str.rtakeWhile isdigit)
  rw [hsplit] at hlast
  have hno : ¬ (str.getD ((str.rdropWhile isdigit).length - 1) 0 = charColon ∧
      (str.rdropWhile isdigit).length < str.length) := by
    rintro ⟨hcolon, hlt⟩
    rw [hcolon] at hlast
    obtain ⟨host, hhost⟩ := List.getLast?_eq_some_iff.mp hlast.symm
    refine hport ⟨host, str.rtakeWhile isdigit, ⟨fun hnil => ?_, hback⟩, ?_⟩
    · rw [hnil, List.append_nil] at hsplit
      rw [hsplit] at hlt
      exact Nat.lt_irrefl _ hlt
    · have hparts := hsplit.symm
      rwa [hhost, List.append_assoc, List.singleton_append] at hparts
  rw [parseAddrPort, scanDigits_length]
  simp only [List.length_eq_zero_iff, hfront, if_false, takePort, hno, Bind.bind, Except.bind]
  have haddr := takeAddr_eq hne (List.not_mem_nil (a := charClose)) none 0
  rw [List.append_nil] at haddr
  exact haddr

/-! ## Whether the outputs are assigned -/

/-- Where an address is returned both outputs were assigned, and the port is in range. -/
def Assigned (out : AddrPort) : Prop :=
  out.rv ≠ .invalid →
    (∃ addr, out.addr = some addr) ∧ ∃ port, out.port = some port ∧ InRange port

/-- The string consists of digits, or ends in a colon and digits, or is refused for its
brackets. -/
def NamesPort (str : Bytes) : Prop :=
  (∀ c ∈ str, isdigit c = true) ∨
    (∃ host port, IsNumber port ∧ str = host ++ charColon :: port) ∨ Misbracketed str

theorem assigned_invalid (addr port : Option Bytes) (logged : List Bytes) :
    Assigned ⟨.invalid, addr, port, logged⟩ := fun h => absurd rfl h

theorem hostAddr_port (host : Bytes) (port : Option Bytes) (str : Bytes) :
    (hostAddr host port str).port = port := by
  unfold hostAddr
  split
  · rfl
  · split <;> rfl

theorem hostAddr_addr (host : Bytes) (port : Option Bytes) (str : Bytes) :
    ((hostAddr host port str).rv = .invalid ↔ Misbracketed host) ∧
      ((hostAddr host port str).rv ≠ .invalid →
        ∃ addr, (hostAddr host port str).addr = some addr) := by
  unfold hostAddr
  by_cases h : Misbracketed host
  · simp [h]
  · rw [if_neg h]
    split <;> simp [h]

/-- With a port the outputs are assigned; without one only a refusal leaves nothing
unassigned. -/
theorem hostAddr_assigned (host : Bytes) (hrange : InRange port) (str : Bytes) :
    Assigned (hostAddr host (some port) str) := fun h =>
  ⟨(hostAddr_addr host (some port) str).2 h, port, hostAddr_port .., hrange⟩

theorem hostAddr_unassigned (host str : Bytes) :
    Assigned (hostAddr host none str) ↔ Misbracketed host := by
  rw [← (hostAddr_addr host none str).1]
  constructor
  · intro h
    by_contra hrv
    obtain ⟨-, port, hport, -⟩ := h hrv
    rw [hostAddr_port] at hport
    cases hport
  · exact fun h hrv => absurd h hrv

/-- The outputs are assigned exactly when the string names a port or is refused; and a port
that was assigned is in range. -/
theorem parseAddrPort_assigned (str : Bytes) :
    ∃ out, parseAddrPort plenty str = .ok out ∧ (Assigned out ↔ NamesPort str) ∧
      ∀ port, out.port = some port → InRange port := by
  by_cases hdigits : ∀ c ∈ str, isdigit c = true
  · refine ⟨_, parseAddrPort_digits hdigits, ?_⟩
    split
    · rename_i hrange
      refine ⟨iff_of_true (fun _ => ⟨⟨_, rfl⟩, str, rfl, hrange⟩) (Or.inl hdigits), ?_⟩
      rintro port hport
      cases hport
      exact hrange
    · exact ⟨iff_of_true (assigned_invalid _ _ _) (Or.inl hdigits), fun port h => (nomatch h)⟩
  · by_cases hport : ∃ host port, IsNumber port ∧ str = host ++ charColon :: port
    · obtain ⟨host, port, hnumber, rfl⟩ := hport
      have hnames : NamesPort (host ++ charColon :: port) :=
        Or.inr (Or.inl ⟨host, port, hnumber, rfl⟩)
      refine ⟨_, parseAddrPort_port host hnumber, ?_⟩
      split_ifs with hhost hrange
      · exact ⟨iff_of_true (assigned_invalid _ _ _) hnames, fun port h => (nomatch h)⟩
      · refine ⟨iff_of_true (hostAddr_assigned host hrange _) hnames, fun port' h => ?_⟩
        rw [hostAddr_port, Option.some_inj] at h
        exact h ▸ hrange
      · exact ⟨iff_of_true (assigned_invalid _ _ _) hnames, fun port h => (nomatch h)⟩
    · refine ⟨_, parseAddrPort_host hdigits hport, ?_, fun port h => ?_⟩
      · rw [hostAddr_unassigned, NamesPort, or_iff_right hdigits, or_iff_right hport]
      · rw [hostAddr_port] at h
        cases h

theorem handlerListen_unassigned_iff (hparse : parseAddrPort plenty str = .ok out)
    (listeners : List Listening.Listener) :
    handlerListen plenty str listeners ≠ .error .unassigned ↔
      (out.rv ≠ .invalid → (∃ addr, out.addr = some addr) ∧ ∃ port, out.port = some port) := by
  have hparse' : parseAddrPort (fun n => plenty (n + 1)) str = .ok out := hparse
  have hnull : plenty 0 = none := rfl
  simp only [handlerListen, hnull, hparse', Bind.bind, Except.bind]
  obtain ⟨rv, addr, port, logged⟩ := out
  cases rv <;> cases addr <;> cases port <;> simp

/-- `fpx_config_parse_addr_port` assigns its outputs, and `fpx_handler_listen` passes on only
what was assigned, exactly when the string consists of digits, or ends in a colon and digits,
or is refused for its brackets. -/
theorem outputs_assigned_iff (str : Bytes) :
    (∃ out, parseAddrPort plenty str = .ok out ∧ (Assigned out ↔ NamesPort str)) ∧
      ∀ listeners, handlerListen plenty str listeners ≠ .error .unassigned ↔ NamesPort str := by
  obtain ⟨out, hparse, hassigned, hrange⟩ := parseAddrPort_assigned str
  refine ⟨⟨out, hparse, hassigned⟩, fun listeners => ?_⟩
  rw [handlerListen_unassigned_iff hparse, ← hassigned]
  refine imp_congr_right fun _ => and_congr_right fun _ => ?_
  exact exists_congr fun port => ⟨fun h => ⟨h, hrange port h⟩, fun h => h.1⟩

/-- `listen localhost` is accepted without a port. -/
theorem port_unassigned :
    parseAddrPort plenty (ascii "localhost") = .ok ⟨.ipv4, some (ascii "localhost"), none, []⟩ ∧
      handlerListen plenty (ascii "localhost") [] = .error .unassigned ∧
      ¬ Assigned ⟨.ipv4, some (ascii "localhost"), none, []⟩ := by
  refine ⟨by decide, by decide, fun h => ?_⟩
  obtain ⟨-, port, hport, -⟩ := h fun hrv => nomatch hrv
  cases hport

/-! ## Whether nothing is lost -/

/-- A bracket that closes, other than the one of a host in brackets. -/
def StrayClose (host : Bytes) : Prop :=
  if Bracketed host then charClose ∈ host.dropLast else charClose ∈ host

/-- The string is made of what was returned. It is refused for its port, for having no host,
for a bracket that is not closed in front of the colon, and for one that closes elsewhere. -/
structure Decomposes (host port : Bytes) (out : AddrPort) : Prop where
  ipv4 : out.rv = .ipv4 → ∃ addr p, out.addr = some addr ∧ out.port = some p ∧
    host ++ charColon :: port = addr ++ charColon :: p
  ipv6 : out.rv = .ipv6 → ∃ addr p, out.addr = some addr ∧ out.port = some p ∧
    host ++ charColon :: port = charOpen :: addr ++ charClose :: charColon :: p
  invalid : out.rv = .invalid ↔ ¬ (1 ≤ decimal port ∧ decimal port ≤ 65535) ∨ host = [] ∨
    host.head? = some charOpen ∧ host.getLast? ≠ some charClose ∨ StrayClose host

theorem inside_eq (hhost : Bracketed host) (hno : charClose ∉ host.dropLast) :
    host = charOpen :: inside host ++ [charClose] := by
  obtain ⟨hhead, hlast⟩ := hhost
  obtain ⟨front, rfl⟩ := List.getLast?_eq_some_iff.mp hlast
  rw [List.dropLast_concat] at hno
  cases front with
  | nil => exact absurd hhead (by decide)
  | cons c front =>
      rw [List.cons_append, List.head?_cons, Option.some_inj] at hhead
      subst hhead
      have htake : inside (charOpen :: front ++ [charClose]) = front := by
        change (front ++ [charClose]).takeWhile (fun x => x ≠ charClose) = front
        rw [List.takeWhile_append_of_pos fun x hx => ?_, List.takeWhile_cons_of_neg (by simp),
          List.append_nil]
        exact decide_eq_true fun heq => hno (heq ▸ List.mem_cons_of_mem _ hx)
      rw [htake]

theorem Bracketed.not_misbracketed (h : Bracketed host) : ¬ Misbracketed host := by
  rw [Misbracketed, if_pos h.1]
  exact not_not.mpr h.2

theorem decomposes_invalid (addr p : Option Bytes) (logged : List Bytes)
    (h : ¬ (1 ≤ decimal port ∧ decimal port ≤ 65535) ∨ host = [] ∨
      host.head? = some charOpen ∧ host.getLast? ≠ some charClose ∨ StrayClose host) :
    Decomposes host port ⟨.invalid, addr, p, logged⟩ :=
  ⟨fun h => (nomatch h), fun h => (nomatch h), iff_of_true rfl h⟩

theorem refused_iff (hhost : host ≠ []) (hrange : InRange port) :
    ¬ (1 ≤ decimal port ∧ decimal port ≤ 65535) ∨ host = [] ∨
      host.head? = some charOpen ∧ host.getLast? ≠ some charClose ∨ StrayClose host ↔
    Misbracketed host ∨ Bracketed host ∧ charClose ∈ host.dropLast := by
  rw [or_iff_right (not_not.mpr hrange.2), or_iff_right hhost]
  unfold StrayClose Misbracketed Bracketed
  by_cases hhead : host.head? = some charOpen
  · by_cases hlast : host.getLast? = some charClose
    · simp [hhead, hlast]
    · simp [hhead, hlast]
  · simp [hhead]

theorem hostAddr_decomposes_iff (hhost : host ≠ []) (hrange : InRange port) (str : Bytes) :
    Decomposes host port (hostAddr host (some port) str) ↔
      ¬ (Bracketed host ∧ charClose ∈ host.dropLast) := by
  have hinvalid := (hostAddr_addr host (some port) str).1
  by_cases hmis : Misbracketed host
  · rw [hostAddr, if_pos hmis]
    refine iff_of_true (decomposes_invalid _ _ _ ?_) fun h => h.1.not_misbracketed hmis
    exact (refused_iff hhost hrange).mpr (Or.inl hmis)
  · constructor
    · intro h hstray
      have hrefused := (refused_iff hhost hrange).mpr (Or.inr hstray)
      exact hmis (hinvalid.mp (h.invalid.mpr hrefused))
    · intro hno
      have hrefused := (refused_iff hhost hrange).trans (or_iff_right hmis)
      have hiff := (iff_of_false (mt hinvalid.mp hmis) hno).trans hrefused.symm
      rw [hostAddr, if_neg hmis] at hiff ⊢
      by_cases hhead : host.head? = some charOpen
      · rw [if_pos hhead] at hiff ⊢
        have hlast : host.getLast? = some charClose := by
          rw [Misbracketed, if_pos hhead] at hmis
          exact not_not.mp hmis
        have hparts := inside_eq ⟨hhead, hlast⟩ fun h => hno ⟨⟨hhead, hlast⟩, h⟩
        refine ⟨fun h => (nomatch h), fun _ => ⟨inside host, port, rfl, rfl, ?_⟩, hiff⟩
        conv_lhs => rw [hparts]
        simp
      · rw [if_neg hhead] at hiff ⊢
        exact ⟨fun _ => ⟨host, port, rfl, rfl, rfl⟩, fun h => (nomatch h), hiff⟩

/-- A string that ends in a colon and digits is decomposed without loss exactly when its host
is not one in brackets with another bracket that closes before the last, or its port is out of
range. -/
theorem decomposes_iff (host : Bytes) (hport : IsNumber port) :
    ∃ out, parseAddrPort plenty (host ++ charColon :: port) = .ok out ∧
      (Decomposes host port out ↔
        ¬ (InRange port ∧ Bracketed host ∧ charClose ∈ host.dropLast)) := by
  refine ⟨_, parseAddrPort_port host hport, ?_⟩
  by_cases hhost : host = []
  · rw [if_pos hhost]
    apply iff_of_true (decomposes_invalid _ _ _ (Or.inr (Or.inl hhost)))
    rintro ⟨-, hbracketed, -⟩
    rw [hhost] at hbracketed
    cases hbracketed.1
  · rw [if_neg hhost]
    by_cases hrange : InRange port
    · rw [if_pos hrange, hostAddr_decomposes_iff hhost hrange, and_iff_right hrange]
    · rw [if_neg hrange]
      refine iff_of_true (decomposes_invalid _ _ _ (Or.inl fun h => ?_)) fun h => hrange h.1
      exact hrange ⟨hport, h⟩

theorem decomposes_loopback :
    ∃ out, parseAddrPort plenty (ascii "[::1]" ++ charColon :: ascii "80") = .ok out ∧
      (Decomposes (ascii "[::1]") (ascii "80") out ↔ ¬ (InRange (ascii "80") ∧
        Bracketed (ascii "[::1]") ∧ charClose ∈ (ascii "[::1]").dropLast)) :=
  decomposes_iff (ascii "[::1]") (by decide)

/-- `listen [a]b]:80` is accepted, and `b]` is lost. -/
theorem host_cut_short :
    parseAddrPort plenty (ascii "[a]b]:80") =
        .ok ⟨.ipv6, some (ascii "a"), some (ascii "80"), []⟩ ∧
      ¬ Decomposes (ascii "[a]b]") (ascii "80")
        ⟨.ipv6, some (ascii "a"), some (ascii "80"), []⟩ := by
  refine ⟨by decide, fun h => ?_⟩
  obtain ⟨addr, p, haddr, hp, hparts⟩ := h.ipv6 rfl
  cases haddr
  cases hp
  exact absurd hparts (by decide)

end Floppix.Configuration
