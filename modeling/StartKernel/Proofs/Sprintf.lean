import StartKernel.Abs.Format
import StartKernel.Proofs.Itoa

/-!
# `StartKernel.Proofs.Sprintf`: the output of `kernel_sprintf`

`kernel_vsprintf` writes its pieces one behind the other. It writes no zero byte at the end: the
only zero bytes are the ones behind numerals, and the next piece overwrites them.

* `Wrote.append`: what two pieces have written, one behind the other.
* `vsprintfConv_spec`: one conversion.
* `vsprintfLoop_spec`: all bytes that the loop writes, for any order of characters and conversions.
* `kernelVsprintf_iff`: the buffer holds the output as a string exactly when it ends with a numeral,
  or the buffer had a zero byte there before.
-/

set_option autoImplicit false

namespace StartKernel

open ByteMem
open Format
open Numeral (text)

variable {m m' m₁ : Mem} {curr fmt str lo hi n a : Nat} {v : Int} {s t f : List (BitVec 8)}
  {c ch : BitVec 8} {e₁ e₂ : Bool} {ws : List Nat} {args args' : List Arg} {p : Piece}
  {ps : List Piece}

/-! ### What was written -/

/-- The bytes `out` were written from `curr` on, and behind them a zero byte or, as `ended` says,
nothing. -/
structure Wrote (m m' : Mem) (curr : Nat) (out : List (BitVec 8)) (ended : Bool) : Prop where
  keep : ∀ x, x < curr ∨ curr + out.length < x → m' x = m x
  bytes : ∀ i < out.length, out[i]? = some (m' (curr + i))
  stop : m' (curr + out.length) = if ended then 0#8 else m (curr + out.length)

theorem wrote_storeBytes (m : Mem) (curr : Nat) (s : List (BitVec 8)) :
    Wrote m (storeBytes m curr s) curr s false where
  keep _ hx := storeBytes_outside (by omega)
  bytes _ hi := storeBytes_inside hi
  stop := storeBytes_outside (Or.inr (Nat.le_refl _))

theorem wrote_nil (m : Mem) (curr : Nat) : Wrote m m curr [] false := by
  have h := wrote_storeBytes m curr []
  rwa [storeBytes_nil] at h

theorem wrote_store8 (m : Mem) (curr : Nat) (c : BitVec 8) :
    Wrote m (store8 m curr c) curr [c] false := by
  have h := wrote_storeBytes m curr [c]
  rwa [storeBytes_cons, storeBytes_nil] at h

/-- A string that is written with its zero byte. -/
theorem wrote_string (m : Mem) (curr : Nat) (s : List (BitVec 8)) :
    Wrote m (store8 (storeBytes m curr s) (curr + s.length) 0#8) curr s true where
  keep x hx := by rw [store8_apart _ _ (by omega), storeBytes_outside (by omega)]
  bytes i hi := by rw [store8_apart _ _ (by omega)]; exact storeBytes_inside hi
  stop := store8_same _ _ _

/-- One piece behind the other. The zero byte behind the first one stays only when the second one is
empty. -/
theorem Wrote.append (h : Wrote m m₁ curr s e₁) (h' : Wrote m₁ m' (curr + s.length) t e₂) :
    Wrote m m' curr (s ++ t) (e₂ || (t.isEmpty && e₁)) := by
  have hlen : curr + (s ++ t).length = curr + s.length + t.length := by
    rw [List.length_append, Nat.add_assoc]
  refine ⟨fun x hx => ?_, fun i hi => ?_, ?_⟩
  · rw [h'.keep x (by omega), h.keep x (by omega)]
  · rw [List.length_append] at hi
    by_cases his : i < s.length
    · rw [List.getElem?_append_left his, h.bytes i his, h'.keep _ (by omega)]
    · rw [List.getElem?_append_right (by omega), h'.bytes (i - s.length) (by omega)]
      congr 2
      omega
  · rw [hlen, h'.stop]
    cases e₂ with
    | true => rfl
    | false =>
      cases t with
      | nil => exact h.stop
      | cons d t => exact h.keep _ (by rw [List.length_cons]; omega)

/-- What was written inside of `lo` to `hi` does not change the arguments. -/
theorem Wrote.argIs (h : Wrote m m₁ curr s e₁) (hlo : lo ≤ curr) (hhi : curr + s.length ≤ hi)
    (hws : List.Forall₂ (ArgIs m lo hi) ws args) : List.Forall₂ (ArgIs m₁ lo hi) ws args :=
  hws.imp fun _ _ harg => harg.congr fun x hx => h.keep x (by omega)

/-- What was written inside of `lo` to `hi` does not change a string that lies apart. -/
theorem Wrote.isStr (h : Wrote m m₁ curr s e₁) (hlo : lo ≤ curr) (hhi : curr + s.length ≤ hi)
    (ht : IsStr m a t) (hapart : a + t.length < lo ∨ hi < a) : IsStr m₁ a t :=
  ht.congr fun x h₁ h₂ => h.keep x (by omega)

/-! ### The conversions -/

/-- The loop of `kernel_strlen` counts the bytes of a string. -/
theorem strlenLoop_spec (hs : IsStr m a s) (len : Int) (hn : s.length < n) :
    strlenLoop m a (toInt len) n = some (toInt (len + s.length)) := by
  induction s generalizing a len n with
  | nil =>
    obtain ⟨n, rfl⟩ := Nat.exists_eq_succ_of_ne_zero (by omega : n ≠ 0)
    unfold strlenLoop
    rw [if_neg (fun hne => hne hs)]
    simp
  | cons c s ih =>
    obtain ⟨hc, hm, hrest⟩ := hs
    obtain ⟨n, rfl⟩ := Nat.exists_eq_succ_of_ne_zero (by omega : n ≠ 0)
    unfold strlenLoop
    have hstep : toInt (toInt len + 1) = toInt (len + 1) := Int.bmod_add_bmod
    rw [if_pos (hm ▸ hc), hstep, ih hrest (len + 1) (Nat.lt_of_succ_lt_succ hn), List.length_cons]
    congr 2
    push_cast
    ring

/-- `kernel_strlen`. -/
theorem kernelStrlen_spec (hs : IsStr m a s) (ha : a ≠ 0) (hfits : a + s.length < 2 ^ 32) :
    kernelStrlen m a = some (toInt s.length) := by
  have hloop := strlenLoop_spec hs 0 (n := addrCount) (by unfold addrCount; omega)
  rw [Int.zero_add] at hloop
  unfold kernelStrlen
  rw [if_neg ha]
  exact hloop

/-- The null pointer has no bytes. -/
theorem kernelStrlen_null (m : Mem) : kernelStrlen m 0 = some 0 := if_pos rfl

/-- The text of `kernel_itoa` in base 10 and in base 16. -/
theorem itoaText_ten (h₂ : v < 2 ^ 31) : itoaText v 10 = decimal v := by
  unfold itoaText decimal
  by_cases hneg : v < 0
  · rw [if_pos ⟨hneg, rfl⟩, if_pos hneg]
  · rw [if_neg fun h => hneg h.1, if_neg hneg, toU32_of_fits (by omega) (by omega)]

theorem itoaText_sixteen : itoaText v 16 = hexadecimal v :=
  if_neg fun h => absurd h.2 (by decide)

/-- `%d` and `%x` write the numeral. -/
theorem vsprintfNum_spec {base : Nat} (hbase : base = 2 ∨ base = 8 ∨ base = 10 ∨ base = 16)
    (h₁ : -2 ^ 31 ≤ v) (h₂ : v < 2 ^ 31) (hcurr : 0 < curr)
    (hfits : curr + (itoaText v base).length < 2 ^ 32) :
    ∃ m₁, vsprintfNum m curr (toU32 v) base = some (m₁, curr + (itoaText v base).length) ∧
      Wrote m m₁ curr (itoaText v base) true := by
  refine ⟨_, ?_, wrote_string m curr (itoaText v base)⟩
  have hstr := isStr_storeBytes m curr (itoaText_ne_zero v hbase)
  have hlen := kernelStrlen_spec hstr (by omega) hfits
  unfold vsprintfNum
  rw [toInt_toU32, toInt_of_fits h₁ h₂, kernelItoa_spec m curr h₁ hbase, Option.bind_some, hlen,
    Option.map_some, toU32_add_toInt, ← Nat.cast_add, toU32_natCast hfits]

/-- The loop of `%s` writes the string. -/
theorem vsprintfStr_spec (hs : IsStr m str s)
    (hapart : str + s.length < curr ∨ curr + s.length < str) :
    vsprintfStr m curr str s.length = (storeBytes m curr s, curr + s.length) := by
  induction s generalizing m curr str with
  | nil =>
    rw [storeBytes_nil]
    rfl
  | cons c s ih =>
    obtain ⟨-, hm, hrest⟩ := hs
    rw [List.length_cons] at hapart
    have hnext : IsStr (store8 m curr c) (str + 1) s :=
      hrest.congr fun x h₁ h₂ => store8_apart _ _ (by omega)
    show vsprintfStr (store8 m curr (m str)) (curr + 1) (str + 1) s.length = _
    rw [hm, ih hnext (by omega), storeBytes_cons, List.length_cons, Nat.add_assoc, Nat.add_comm 1]

/-- The low byte of an `int`. -/
theorem ofNat_toU32 (v : Int) : BitVec.ofNat 8 (toU32 v) = BitVec.ofInt 8 v := by
  apply BitVec.eq_of_toNat_eq
  rw [BitVec.toNat_ofNat, BitVec.toNat_ofInt]
  unfold toU32
  norm_num
  omega

/-- `%d` takes an `int`. -/
theorem vsprintfConv_d (ws : List Nat) (hw : ArgIs m lo hi n (.int v)) (hcurr : 0 < curr)
    (hfits : curr + (decimal v).length < 2 ^ 32) :
    ∃ m₁, vsprintfConv m curr (n :: ws) (char 'd')
        = some (m₁, curr + (decimal v).length, ws) ∧ Wrote m m₁ curr (decimal v) true := by
  obtain ⟨rfl, h₁, h₂⟩ := hw
  have hnum := vsprintfNum_spec (m := m) (Or.inr (Or.inr (Or.inl rfl))) h₁ h₂ hcurr
    (by rw [itoaText_ten h₂]; exact hfits)
  rw [itoaText_ten h₂, Nat.cast_ofNat] at hnum
  obtain ⟨m₁, he, hwrote⟩ := hnum
  refine ⟨m₁, ?_, hwrote⟩
  unfold vsprintfConv vaArg
  rw [if_pos rfl, Option.bind_some]
  simp only [he, Option.map_some]

/-- `%x` takes an `int`. -/
theorem vsprintfConv_x (ws : List Nat) (hw : ArgIs m lo hi n (.int v)) (hcurr : 0 < curr)
    (hfits : curr + (hexadecimal v).length < 2 ^ 32) :
    ∃ m₁, vsprintfConv m curr (n :: ws) (char 'x')
        = some (m₁, curr + (hexadecimal v).length, ws) ∧
      Wrote m m₁ curr (hexadecimal v) true := by
  obtain ⟨rfl, h₁, h₂⟩ := hw
  have hnum := vsprintfNum_spec (m := m) (Or.inr (Or.inr (Or.inr rfl))) h₁ h₂ hcurr
    (by rw [itoaText_sixteen]; exact hfits)
  rw [itoaText_sixteen, Nat.cast_ofNat] at hnum
  obtain ⟨m₁, he, hwrote⟩ := hnum
  refine ⟨m₁, ?_, hwrote⟩
  unfold vsprintfConv vaArg
  rw [if_neg (by decide), if_pos rfl, Option.bind_some]
  simp only [he, Option.map_some]

/-- `%c` takes an `int` and writes its low byte. -/
theorem vsprintfConv_c (hw : ArgIs m lo hi n (.int v)) :
    vsprintfConv m curr (n :: ws) (char 'c')
      = some (store8 m curr (BitVec.ofInt 8 v), curr + 1, ws) := by
  obtain ⟨rfl, -, -⟩ := hw
  unfold vsprintfConv vaArg
  rw [if_neg (by decide), if_neg (by decide), if_pos rfl, Option.map_some]
  simp only [ofNat_toU32]

/-- `%s` takes a string, or the null pointer, which has no bytes. -/
theorem vsprintfConv_s {s : Option (List (BitVec 8))} (hw : ArgIs m lo hi n (.str s))
    (hlo : lo ≤ curr) (hhi : curr + (s.getD []).length ≤ hi) :
    vsprintfConv m curr (n :: ws) (char 's')
      = some (storeBytes m curr (s.getD []), curr + (s.getD []).length, ws) := by
  unfold vsprintfConv vaArg
  rw [if_neg (by decide), if_neg (by decide), if_neg (by decide), if_pos rfl, Option.bind_some]
  cases s with
  | none =>
    obtain rfl := hw
    have hzero : toU32 0 = 0 := by decide
    simp only [kernelStrlen_null, Option.map_some, hzero, vsprintfStr, Option.getD_none,
      storeBytes_nil, List.length_nil, Nat.add_zero]
  | some s =>
    obtain ⟨hne, hs, hin, hapart⟩ := hw
    have hlen : curr + s.length ≤ hi := hhi
    simp only [kernelStrlen_spec hs hne hin, Option.map_some, toU32_toInt,
      toU32_natCast (show s.length < 2 ^ 32 by omega),
      vsprintfStr_spec hs (show n + s.length < curr ∨ curr + s.length < n by omega),
      Option.getD_some]

/-- One conversion writes its piece. -/
theorem vsprintfConv_spec (hws : List.Forall₂ (ArgIs m lo hi) ws args)
    (hconv : convert ch args = some (p, args')) (hlo : lo ≤ curr) (hcurr : 0 < curr)
    (hhi : curr + p.bytes.length ≤ hi) (hfits : hi < 2 ^ 32) :
    ∃ m₁ ws', vsprintfConv m curr ws ch = some (m₁, curr + p.bytes.length, ws') ∧
      List.Forall₂ (ArgIs m lo hi) ws' args' ∧ Wrote m m₁ curr p.bytes p.isNum := by
  rcases convert_cases hconv with ⟨rfl, v, rfl, rfl⟩ | ⟨rfl, v, rfl, rfl⟩ |
    ⟨rfl, v, rfl, -, rfl⟩ | ⟨rfl, s, rfl, rfl⟩ | ⟨⟨hd, hx, hc, hs⟩, rfl, rfl⟩
  · cases hws with
    | @cons w _ ws₁ _ hw hws =>
      obtain ⟨m₁, he, hwrote⟩ := vsprintfConv_d ws₁ hw hcurr (Nat.lt_of_le_of_lt hhi hfits)
      exact ⟨m₁, ws₁, he, hws, hwrote⟩
  · cases hws with
    | @cons w _ ws₁ _ hw hws =>
      obtain ⟨m₁, he, hwrote⟩ := vsprintfConv_x ws₁ hw hcurr (Nat.lt_of_le_of_lt hhi hfits)
      exact ⟨m₁, ws₁, he, hws, hwrote⟩
  · cases hws with
    | cons hw hws => exact ⟨_, _, vsprintfConv_c hw, hws, wrote_store8 m curr _⟩
  · cases hws with
    | cons hw hws => exact ⟨_, _, vsprintfConv_s hw hlo hhi, hws, wrote_storeBytes m curr _⟩
  · -- The conversion is not known. Nothing is written.
    refine ⟨m, ws, ?_, hws, wrote_nil m curr⟩
    unfold vsprintfConv
    rw [if_neg hd, if_neg hx, if_neg hc, if_neg hs]
    rfl

/-! ### The scanner -/

/-- The loop ends at the end of the format string. -/
theorem vsprintfLoop_end {state : FmtState} (hstop : m fmt = 0#8) :
    vsprintfLoop m state curr fmt ws (n + 1) = some m := by
  unfold vsprintfLoop
  exact if_pos hstop

/-- An ordinary character is copied. -/
theorem vsprintfLoop_char (hc : c ≠ 0#8) (hm : m fmt = c) (hchar : c ≠ char '%') :
    vsprintfLoop m .normal curr fmt ws (n + 1)
      = vsprintfLoop (store8 m curr c) .normal (curr + 1) (fmt + 1) ws n := by
  subst hm
  conv => lhs; unfold vsprintfLoop
  rw [if_neg hc]
  exact if_neg hchar

/-- A `%` starts a conversion. -/
theorem vsprintfLoop_percent (hm : m fmt = char '%') :
    vsprintfLoop m .normal curr fmt ws (n + 1) = vsprintfLoop m .readFmt curr (fmt + 1) ws n := by
  conv => lhs; unfold vsprintfLoop
  rw [hm, if_neg (by decide)]
  exact if_pos rfl

/-- The character behind a `%`. -/
theorem vsprintfLoop_conv (hc : c ≠ 0#8) (hm : m fmt = c) {ws' : List Nat} {curr' : Nat}
    (he : vsprintfConv m curr ws c = some (m₁, curr', ws')) :
    vsprintfLoop m .readFmt curr fmt ws (n + 1)
      = vsprintfLoop m₁ .normal curr' (fmt + 1) ws' n := by
  subst hm
  conv => lhs; unfold vsprintfLoop
  rw [if_neg hc]
  show (vsprintfConv m curr ws (m fmt)).bind _ = _
  rw [he]
  rfl

/-- What the loop of `kernel_vsprintf` writes: the output, and a zero byte behind it only when it
ends with a numeral. -/
theorem vsprintfLoop_spec (hf : IsStr m fmt f) (hapart : fmt + f.length < lo ∨ hi < fmt)
    (hws : List.Forall₂ (ArgIs m lo hi) ws args) (hp : pieces f args = some ps) (hlo : lo ≤ curr)
    (hcurr : 0 < curr) (hhi : curr + (output ps).length ≤ hi) (hfits : hi < 2 ^ 32)
    (hn : f.length < n) :
    ∃ m', vsprintfLoop m .normal curr fmt ws n = some m' ∧
      Wrote m m' curr (output ps) (endsInNum ps) := by
  induction f, args using pieces.induct generalizing m curr fmt ws ps n with
  | case1 args =>
    obtain rfl := Option.some.inj hp
    obtain ⟨n, rfl⟩ := Nat.exists_eq_succ_of_ne_zero (by omega : n ≠ 0)
    exact ⟨m, vsprintfLoop_end hf, wrote_nil m curr⟩
  | case2 args =>
    -- A single `%` at the end.
    obtain rfl := Option.some.inj hp
    rw [List.length_singleton] at hn
    obtain ⟨n, rfl⟩ : ∃ k, n = k + 2 := ⟨n - 2, by omega⟩
    exact ⟨m, (vsprintfLoop_percent hf.2.1).trans (vsprintfLoop_end hf.2.2), wrote_nil m curr⟩
  | case3 c args hchar =>
    -- An ordinary character at the end.
    obtain ⟨ps', hnil, rfl⟩ := pieces_char hchar hp
    obtain rfl := Option.some.inj hnil
    rw [List.length_singleton] at hn
    obtain ⟨n, rfl⟩ : ∃ k, n = k + 2 := ⟨n - 2, by omega⟩
    have hwrote := wrote_store8 m curr c
    have hend := hwrote.isStr hlo hhi hf.2.2 (by rw [List.length_singleton] at hapart; simp; omega)
    exact ⟨_, (vsprintfLoop_char hf.1 hf.2.1 hchar).trans (vsprintfLoop_end hend), hwrote⟩
  | case4 d f args ih =>
    -- A conversion writes inside of the buffer, so the format and the arguments are as before.
    obtain ⟨p, args', ps', hconv, hps, rfl⟩ := pieces_conv hp
    obtain ⟨-, hpercent, hd, hmd, hrest⟩ := hf
    rw [List.length_cons, List.length_cons] at hapart hn
    rw [output_cons, List.length_append] at hhi
    obtain ⟨n, rfl⟩ : ∃ k, n = k + 2 := ⟨n - 2, by omega⟩
    obtain ⟨m₁, ws', he, hws', hwrote⟩ := vsprintfConv_spec hws hconv hlo hcurr (by omega) hfits
    have hin : curr + p.bytes.length ≤ hi := by omega
    obtain ⟨m', hloop, hwrote'⟩ := ih (p, args') (hwrote.isStr hlo hin hrest (by omega)) (by omega)
      (hwrote.argIs hlo hin hws') hps (by omega : lo ≤ curr + p.bytes.length) (by omega) (by omega)
      (by omega : f.length < n)
    refine ⟨m', ?_, hwrote.append hwrote'⟩
    rw [vsprintfLoop_percent hpercent, vsprintfLoop_conv hd hmd he]
    exact hloop
  | case5 c d f args hchar ih =>
    -- An ordinary character with more behind it.
    obtain ⟨ps', hps, rfl⟩ := pieces_char hchar hp
    obtain ⟨hc, hmc, hrest⟩ := hf
    rw [List.length_cons] at hapart hn
    have hlen : (output (.text [c] :: ps')).length = 1 + (output ps').length :=
      List.length_append
    obtain ⟨n, rfl⟩ : ∃ k, n = k + 1 := ⟨n - 1, by omega⟩
    have hwrote := wrote_store8 m curr c
    have hone : curr + [c].length ≤ hi := by
      rw [List.length_singleton]
      omega
    obtain ⟨m', hloop, hwrote'⟩ := ih (hwrote.isStr hlo hone hrest (by omega)) (by omega)
      (hwrote.argIs hlo hone hws) hps (by omega : lo ≤ curr + 1) (by omega) (by omega)
      (by omega : (d :: f).length < n)
    exact ⟨m', (vsprintfLoop_char hc hmc hchar).trans hloop, hwrote.append hwrote'⟩

/-- The output of `kernel_sprintf`. For every format string and all arguments that match it, with a
buffer that is large enough and apart from them: the functions return, and afterwards the buffer
holds the output as a string if and only if the output ends with a numeral, or the byte of the
buffer behind the output was zero before. -/
theorem kernelVsprintf_iff {buffer : Nat} (hbuffer : buffer ≠ 0) (hf : IsStr m fmt f)
    (hfmt : fmt + f.length < 2 ^ 32) (hp : pieces f args = some ps)
    (hfits : buffer + (output ps).length < 2 ^ 32)
    (hapart : fmt + f.length < buffer ∨ buffer + (output ps).length < fmt)
    (hws : List.Forall₂ (ArgIs m buffer (buffer + (output ps).length)) ws args) :
    ∃ m', kernelSprintf m buffer fmt ws = some m' ∧ kernelVsprintf m buffer fmt ws = some m' ∧
      (IsStr m' buffer (output ps) ↔
        endsInNum ps = true ∨ m (buffer + (output ps).length) = 0#8) := by
  obtain ⟨m', he, hwrote⟩ := vsprintfLoop_spec hf hapart hws hp (Nat.le_refl _) (by omega)
    (Nat.le_refl _) hfits (n := addrCount) (by unfold addrCount; omega)
  refine ⟨m', he, he, ?_⟩
  have hstop := hwrote.stop
  constructor
  · intro hstr
    rw [hstr.stop] at hstop
    cases hnum : endsInNum ps with
    | true => exact Or.inl rfl
    | false =>
      rw [hnum] at hstop
      exact Or.inr hstop.symm
  · intro hzero
    refine IsStr.intro hwrote.bytes (pieces_ne_zero hws hf.nonzero hp) ?_
    rw [hstop]
    rcases hzero with hnum | hold
    · rw [if_pos hnum]
    · rw [hold]
      exact ite_self 0#8

/-- A format string at the address 100, in a memory that is `v` everywhere else. -/
def oneFormat (v : BitVec 8) (f : List Char) : Mem :=
  storeBytes (fun _ => v) 100 ((f ++ [Char.ofNat 0]).map char)

/-- The format "a%d" with the argument 7. -/
theorem kernelVsprintf_iff_numeral : ∃ m',
    kernelSprintf (oneFormat 0xAA#8 ['a', '%', 'd']) 200 100 [7] = some m' ∧
      kernelVsprintf (oneFormat 0xAA#8 ['a', '%', 'd']) 200 100 [7] = some m' ∧
      (IsStr m' 200 (output [.text [char 'a'], .num (decimal 7)]) ↔
        endsInNum [.text [char 'a'], .num (decimal 7)] = true ∨
          oneFormat 0xAA#8 ['a', '%', 'd'] 202 = 0#8) := by
  have hf : IsStr (oneFormat 0xAA#8 ['a', '%', 'd']) 100 [char 'a', char '%', char 'd'] := by decide
  have hp : pieces [char 'a', char '%', char 'd'] [.int 7]
      = some [.text [char 'a'], .num (decimal 7)] := rfl
  exact kernelVsprintf_iff (by decide) hf (by decide) hp (by decide) (by decide)
    (.cons ⟨by decide, by decide, by decide⟩ .nil)

/-- Behind "a", the buffer keeps what it held before. -/
theorem not_kernelSprintf_stale : ∃ m',
    kernelSprintf (oneFormat 0xAA#8 ['a']) 200 100 [] = some m' ∧
      kernelVsprintf (oneFormat 0xAA#8 ['a']) 200 100 [] = some m' ∧
      IsStr (oneFormat 0xAA#8 ['a']) 100 [char 'a'] ∧
      pieces [char 'a'] [] = some [.text [char 'a']] ∧
      ¬ IsStr m' 200 (output [.text [char 'a']]) := by
  refine ⟨_, rfl, rfl, by decide, rfl, fun hstr => ?_⟩
  exact absurd hstr.2.2 (by decide)

end StartKernel
