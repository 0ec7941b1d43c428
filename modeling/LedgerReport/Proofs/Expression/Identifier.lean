import LedgerReport.Proofs.Expression.Reading
import LedgerReport.Proofs.Expression.Position
set_option autoImplicit false

namespace LedgerReport
open Text Token

theorem Token.isBlank_of_isNameChar {c : Char} (h : isNameChar c = true) : isBlank c = false := by
  have hrange : 48 ≤ c.toNat ∧ c.toNat < 123 := by
    simp only [isNameChar, Char.isAlphanum, Bool.or_eq_true, decide_eq_true_eq] at h
    rcases h with (h | h) | rfl
    · have hstart := toNat_of_isNameStart (c := c) (by rw [isNameStart, h, Bool.true_or])
      omega
    · have hdigit : 48 ≤ c.toNat ∧ c.toNat ≤ 57 := by
        simpa [Char.isDigit, UInt32.le_iff_toNat_le] using h
      omega
    · decide
  exact isBlank_eq_false (by omega)

theorem TokenKind.ends_of_blank {rest : List Char} (h : ∀ c ∈ rest.head?, isBlank c = true)
    (kind : TokenKind) (chars : List Char) : kind.Ends chars rest := by
  have hhalts : ∀ {p : Char → Bool}, (∀ {c}, p c = true → isBlank c = false) → Halts p rest := by
    intro p hp c hc
    rw [Bool.eq_false_iff]
    intro hpc
    have hblank := h c hc
    rw [hp hpc] at hblank
    cases hblank
  cases kind with
  | number =>
    refine ⟨hhalts isBlank_of_isDecimalDigit, .inr fun r hr => ?_⟩
    have hpoint : isBlank '.' = true := h '.' (by rw [hr]; rfl)
    exact absurd hpoint (by decide)
  | order => exact hhalts isBlank_of_isDecimalDigit
  | name => exact hhalts Token.isBlank_of_isNameChar
  | operator | opening | closing => trivial

namespace Node

/-- Whether an expression is the single variable of its own text. -/
def NamesItself (s : String) : Prop := ∃ position, read s = .ok (.variableAt s position)

/-- Whether some expression refers to the variable of a name. -/
def Referable (name : String) : Prop :=
  ∃ expression node, read expression = .ok node ∧ Reference.name name ∈ node.occurrences

theorem read_between {s name : String} (before after : List Char)
    (hs : s.toList = before ++ (name.toList ++ after)) (hb : ∀ c ∈ before, isBlank c = true)
    (hn : TokenKind.name.Admits name.toList) (ha : ∀ c ∈ after, isBlank c = true) :
    read s = .ok (.variableAt name before.length) := by
  have hends : TokenKind.name.Ends name.toList after :=
    TokenKind.ends_of_blank (fun c hc => ha c (List.mem_of_mem_head? hc)) _ _
  have hscan : scan 0 s.toList = .ok [⟨.name, name.toList, before.length⟩] := by
    rw [hs, scan_blanks hb, Nat.zero_add,
      scan_of_lexeme? (lexeme?_eq_some_iff.2 ⟨hn, hends⟩), scan_of_blanks ha]
    rfl
  have hderives : Grammar.Derives .sum [⟨.name, name.toList, before.length⟩]
      (.variableAt (String.ofList name.toList) before.length) :=
    .ofProduct (.ofOperand (.ofPrimary (.name rfl)))
  rw [String.ofList_toList] at hderives
  exact read_eq_ok.2 ⟨_, read_eq_ok_iff.2 hscan, hderives,
    List.forall_mem_singleton.2 (overlong?_of_kind nofun)⟩

theorem admits_of_derives {part : Grammar.Stratum} {ts : List Token} {node : Node}
    (h : Grammar.Derives part ts node) (hts : ∀ t ∈ ts, t.kind.Admits t.chars) {name : String}
    (hn : Reference.name name ∈ node.occurrences) : TokenKind.name.Admits name.toList := by
  induction h with
  | number hk hx => cases hn
  | @name t hk =>
    obtain rfl : name = t.text := by simpa [occurrences] using hn
    have ht := hts t List.mem_cons_self
    rw [hk] at ht
    rwa [Token.text, String.toList_ofList]
  | order hk hn' => simp [occurrences] at hn
  | enclosed ht hu h ih => exact ih (fun v hv => hts v (by simp [hv])) hn
  | ofPrimary h ih | ofOperand h ih | ofProduct h ih => exact ih hts hn
  | signed ht h ih => exact ih (fun v hv => hts v (by simp [hv])) hn
  | multiplied hl ho ht hr ihl ihr | added hl ho ht hr ihl ihr =>
    rcases List.mem_append.1 hn with hn | hn
    · exact ihl (fun v hv => hts v (by simp [hv])) hn
    · exact ihr (fun v hv => hts v (by simp [hv])) hn

theorem referable_iff {name : String} : Referable name ↔ TokenKind.name.Admits name.toList := by
  constructor
  · rintro ⟨expression, node, hr, hn⟩
    obtain ⟨tokens, ht, hd, -⟩ := read_eq_ok.1 hr
    exact admits_of_derives hd (admits_of_mem_scan (read_eq_ok_iff.1 ht)) hn
  · intro h
    refine ⟨name, _, read_between [] [] ?_ nofun h nofun, ?_⟩
    · simp
    · simp [occurrences]

theorem namesItself_iff {s : String} : NamesItself s ↔ TokenKind.name.Admits s.toList := by
  constructor
  · rintro ⟨position, hr⟩
    exact referable_iff.1 ⟨s, _, hr, List.mem_singleton.2 rfl⟩
  · intro h
    exact ⟨_, read_between [] [] (by simp) nofun h nofun⟩

theorem referable_iff_namesItself {name : String} : Referable name ↔ NamesItself name :=
  referable_iff.trans namesItself_iff.symm

theorem getLast?_of_referable {name : String} (h : Referable name) :
    name.toList.getLast? ≠ some '\n' := by
  intro hlast
  have hfeed : '\n' ∈ name.toList := List.mem_of_getLast? hlast
  obtain ⟨c, r, hcs, hc, hr⟩ := referable_iff.1 h
  rw [hcs] at hfeed
  rcases List.mem_cons.1 hfeed with rfl | hfeed
  · exact absurd hc (by decide)
  · exact absurd (hr _ hfeed) (by decide)

theorem getLast?_lineFeed (t : String) : (t ++ "\n").toList.getLast? = some '\n' := by
  rw [String.toList_append]
  exact List.getLast?_concat

end Node

end LedgerReport
