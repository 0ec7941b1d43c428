import Mathlib.Algebra.Ring.Nat
import Mathlib.Tactic.SplitIfs
import LedgerReport.Text.Quoted
set_option autoImplicit false

namespace LedgerReport.Text.Quoted

def unhex (c : Char) : Nat := if c.toNat < 58 then c.toNat - 48 else c.toNat - 87

def ofHex (cs : List Char) : Nat := cs.foldl (fun n c => 16 * n + unhex c) 0

theorem unhex_hexDigit : ∀ n < 16, unhex (hexDigit n) = n := by decide

theorem ofHex_hexPlaces {width n : Nat} (h : n < 16 ^ width) : ofHex (hexPlaces width n) = n := by
  induction width generalizing n with
  | zero =>
    rw [Nat.pow_zero] at h
    simp [hexPlaces, ofHex, Nat.lt_one_iff.1 h]
  | succ width ih =>
    have hfront : n / 16 < 16 ^ width :=
      Nat.div_lt_of_lt_mul (by rwa [Nat.mul_comm, ← Nat.pow_succ])
    have hlast := unhex_hexDigit (n % 16) (Nat.mod_lt n (by omega))
    have hread : ofHex (hexPlaces (width + 1) n) =
        16 * ofHex (hexPlaces width (n / 16)) + unhex (hexDigit (n % 16)) := by
      simp [hexPlaces, ofHex]
    rw [hread, ih hfront, hlast]
    omega

/-- A character by its code point in so many places, and what follows it. -/
def unhexPlaces (width : Nat) (cs : List Char) : Char × List Char :=
  (Char.ofNat (ofHex (cs.take width)), cs.drop width)

theorem unhexPlaces_hexPlaces {width : Nat} {c : Char} (h : c.toNat < 16 ^ width)
    (rest : List Char) : unhexPlaces width (hexPlaces width c.toNat ++ rest) = (c, rest) := by
  have hl := length_hexPlaces width c.toNat
  rw [unhexPlaces, List.take_left' hl, List.drop_left' hl, ofHex_hexPlaces h, Char.ofNat_toNat]

def unescape : List Char → Option (Char × List Char)
  | [] => none
  | c :: rest =>
    if c = '\\' then
      match rest with
      | [] => none
      | k :: rest =>
        if k = 'n' then some ('\n', rest)
        else if k = 'r' then some ('\r', rest)
        else if k = 't' then some ('\t', rest)
        else if k = 'x' then some (unhexPlaces 2 rest)
        else if k = 'u' then some (unhexPlaces 4 rest)
        else if k = 'U' then some (unhexPlaces 8 rest)
        else some (k, rest)
    else some (c, rest)

def IsQuote (q : Char) : Prop := q = '\'' ∨ q = '"'

theorem isQuote_quoteOf (cs : List Char) : IsQuote (quoteOf cs) := by
  unfold quoteOf
  split_ifs
  · exact .inr rfl
  · exact .inl rfl

section
variable {q : Char}

theorem unescape_escape (hq : IsQuote q) (c : Char) (rest : List Char) :
    unescape (escape q c ++ rest) = some (c, rest) := by
  have hc : c.toNat < 0x110000 := by
    have hvalid : c.toNat.isValidChar := c.valid
    unfold Nat.isValidChar at hvalid
    omega
  unfold escape
  split_ifs with hself hn hr ht hplain hx hu
  · rcases hself with rfl | rfl
    · rcases hq with rfl | rfl <;> rfl
    · rfl
  · rw [hn]
    rfl
  · rw [hr]
    rfl
  · rw [ht]
    rfl
  · have hb : c ≠ '\\' := fun he => hself (.inr he)
    simp [unescape, hb]
  · have hlt : c.toNat < 16 ^ 2 := by omega
    exact congrArg some (unhexPlaces_hexPlaces hlt rest)
  · have hlt : c.toNat < 16 ^ 4 := by omega
    exact congrArg some (unhexPlaces_hexPlaces hlt rest)
  · have hlt : c.toNat < 16 ^ 8 := by omega
    exact congrArg some (unhexPlaces_hexPlaces hlt rest)

theorem escape_ne_quote (hq : IsQuote q) (c : Char) {rest rest' : List Char} :
    escape q c ++ rest ≠ q :: rest' := by
  have hb : '\\' ≠ q := by
    rcases hq with rfl | rfl <;> decide
  intro h
  unfold escape at h
  split_ifs at h with hself
  all_goals first
    | exact hb (List.cons.inj h).1
    | exact hself (.inl (List.cons.inj h).1)

theorem flatMap_escape_append_inj (hq : IsQuote q) {cs ds rest rest' : List Char}
    (h : cs.flatMap (escape q) ++ q :: rest = ds.flatMap (escape q) ++ q :: rest') :
    cs = ds ∧ rest = rest' := by
  induction cs generalizing ds with
  | nil =>
    cases ds with
    | nil => exact ⟨rfl, (List.cons.inj h).2⟩
    | cons d ds =>
      rw [List.flatMap_cons, List.append_assoc] at h
      exact absurd h.symm (escape_ne_quote hq d)
  | cons c cs ih =>
    cases ds with
    | nil =>
      rw [List.flatMap_cons, List.append_assoc] at h
      exact absurd h (escape_ne_quote hq c)
    | cons d ds =>
      have hread := congrArg unescape h
      simp only [List.flatMap_cons, List.append_assoc, unescape_escape hq, Option.some.injEq,
        Prod.mk.injEq] at hread
      obtain ⟨rfl, hrest⟩ := hread
      obtain ⟨rfl, hend⟩ := ih hrest
      exact ⟨rfl, hend⟩

end

theorem encode_append (cs rest : List Char) :
    encode cs ++ rest = quoteOf cs :: (cs.flatMap (escape (quoteOf cs)) ++ quoteOf cs :: rest) := by
  simp [encode]

theorem encode_append_inj {cs ds rest rest' : List Char}
    (h : encode cs ++ rest = encode ds ++ rest') : cs = ds ∧ rest = rest' := by
  rw [encode_append, encode_append] at h
  obtain ⟨hquote, hbody⟩ := List.cons.inj h
  rw [hquote] at hbody
  exact flatMap_escape_append_inj (isQuote_quoteOf ds) hbody

end LedgerReport.Text.Quoted
