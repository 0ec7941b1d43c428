import Mathlib
import LedgerReport.Proofs.Expression.Identifier
/-!
Tokens and the space between them.

The lexeme at the start of a text is the longest of any kind there (`lexeme?_eq_some_iff_longest`),
so the scanner cuts a text into longest lexemes and blanks, and it stops only where none starts
(`scan_eq_error_iff`). A token that is followed by a blank is a longest lexeme whatever stands
behind, so tokens with blanks between them are scanned as what they were, wherever they now stand
(`Spaced.scan_eq_ok`), and a tree that is derived from them has changed in its positions only
(`Grammar.Derives.unplaced`).
-/

set_option autoImplicit false

namespace LedgerReport
open Text Numeral

theorem TokenKind.Admits.extend {kind : TokenKind} {chars : List Char} (h : kind.Admits chars)
    (cs : List Char) : ∃ more rest, cs = more ++ rest ∧ kind.Admits (chars ++ more) ∧
      kind.Ends (chars ++ more) rest := by
  have hdigits : AreDigits (Token.splitDigits cs).1 := Token.areDigits_splitDigits cs
  have hhalts : Halts isDecimalDigit (Token.splitDigits cs).2 := halts_dropWhile isDecimalDigit cs
  have happend := Token.splitDigits_append cs
  have hjoin : ∀ {ds : List Char}, AreDigits ds → AreDigits (ds ++ (Token.splitDigits cs).1) :=
    fun hd c hc => (List.mem_append.1 hc).elim (hd c) (hdigits c)
  cases kind with
  | number =>
    obtain ⟨ds, hd, ⟨rfl, hn⟩ | ⟨es, he, hn, rfl⟩⟩ := h
    · -- more digits, and a fraction if one comes next
      obtain ⟨hends, hpoint⟩ := Token.ends_splitFraction hhalts
      refine ⟨(Token.splitDigits cs).1 ++ (Token.splitFraction (Token.splitDigits cs).2).1,
        (Token.splitFraction (Token.splitDigits cs).2).2, ?_, ?_, hends, ?_⟩
      · rw [List.append_assoc, Token.splitFraction_append, happend]
      · rw [← List.append_assoc]
        exact Token.isDecimal_splitFraction (hjoin hd) (by simp [hn]) _
      · exact hpoint.imp_left fun hm => by simp [hm]
    · refine ⟨_, _, happend.symm, ⟨ds, hd, .inr ⟨es ++ (Token.splitDigits cs).1, hjoin he,
        by simp [hn], by simp⟩⟩, hhalts, .inl (by simp)⟩
  | order =>
    obtain ⟨ds, rfl, hd, hn⟩ := h
    exact ⟨_, _, happend.symm, ⟨_, rfl, hjoin hd, by simp [hn]⟩, hhalts⟩
  | name =>
    obtain ⟨c, r, rfl, hc, hr⟩ := h
    refine ⟨_, _, List.takeWhile_append_dropWhile.symm, ⟨c, r ++ cs.takeWhile Token.isNameChar, rfl,
      hc, fun d hd => ?_⟩, halts_dropWhile Token.isNameChar cs⟩
    exact (List.mem_append.1 hd).elim (hr d) (List.all_eq_true.1 List.all_takeWhile d)
  | operator | opening | closing => exact ⟨[], cs, rfl, by rwa [List.append_nil], trivial⟩

namespace Token

/-- Whether characters make up a lexeme of a kind, or blanks, which are of no kind. -/
def Makes (chars : List Char) : Option TokenKind → Prop
  | none => chars ≠ [] ∧ ∀ c ∈ chars, isBlank c = true
  | some kind => kind.Admits chars

/-- Whether a text starts with characters of a kind, and with no more characters of any kind. -/
structure Longest (kind : Option TokenKind) (chars cs : List Char) : Prop where
  makes : Makes chars kind
  starts : chars <+: cs
  longest : ∀ other more, Makes more other → more <+: cs → more.length ≤ chars.length

theorem Makes.exists_lexeme? {kind : Option TokenKind} {chars : List Char} (h : Makes chars kind)
    (cs : List Char) : ∃ more rest, cs = more ++ rest ∧
      lexeme? (chars ++ cs) = some (kind, chars ++ more, rest) := by
  cases kind with
  | none =>
    obtain ⟨hn, hb⟩ := h
    obtain ⟨c, bs, rfl⟩ := List.exists_cons_of_ne_nil hn
    have hbs : ∀ b ∈ bs, isBlank b = true := fun b hm => hb b (List.mem_cons_of_mem c hm)
    refine ⟨cs.takeWhile isBlank, cs.dropWhile isBlank, List.takeWhile_append_dropWhile.symm, ?_⟩
    simp [lexeme?, hb c List.mem_cons_self, List.takeWhile_append_of_pos hbs,
      List.dropWhile_append_of_pos hbs]
  | some kind =>
    obtain ⟨more, rest, rfl, ha, he⟩ := TokenKind.Admits.extend h cs
    refine ⟨more, rest, rfl, ?_⟩
    rw [← List.append_assoc]
    exact lexeme?_eq_some_iff.2 ⟨ha, he⟩

theorem makes_of_lexeme? {cs chars rest : List Char} {kind : Option TokenKind}
    (h : lexeme? cs = some (kind, chars, rest)) : Makes chars kind := by
  cases kind with
  | none => exact ⟨ne_nil_of_lexeme? h, isBlank_of_lexeme? h⟩
  | some kind => exact admits_of_lexeme? h

theorem lexeme?_eq_some_iff_longest {cs chars rest : List Char} {kind : Option TokenKind} :
    lexeme? cs = some (kind, chars, rest) ↔ Longest kind chars cs ∧ chars ++ rest = cs := by
  constructor
  · intro h
    refine ⟨⟨makes_of_lexeme? h, ⟨rest, lexeme?_append h⟩, ?_⟩, lexeme?_append h⟩
    rintro other more hm ⟨behind, rfl⟩
    obtain ⟨added, rest', -, hl⟩ := hm.exists_lexeme? behind
    rw [h] at hl
    cases hl
    simp
  · rintro ⟨⟨hm, -, hlongest⟩, rfl⟩
    obtain ⟨added, rest', rfl, hl⟩ := hm.exists_lexeme? rest
    have hle := hlongest kind (chars ++ added) (makes_of_lexeme? hl) ⟨rest', lexeme?_append hl⟩
    have hnone : added.length = 0 := by
      rw [List.length_append] at hle
      omega
    obtain rfl : added = [] := List.eq_nil_of_length_eq_zero hnone
    simpa using hl

theorem lexeme?_eq_none_iff {cs : List Char} :
    lexeme? cs = none ↔ ∀ kind chars, Makes chars kind → ¬ chars <+: cs := by
  constructor
  · rintro h kind chars hm ⟨rest, rfl⟩
    obtain ⟨more, rest', -, hl⟩ := hm.exists_lexeme? rest
    rw [h] at hl
    cases hl
  · intro h
    cases hl : lexeme? cs with
    | none => rfl
    | some found =>
      obtain ⟨kind, chars, rest⟩ := found
      exact absurd ⟨rest, lexeme?_append hl⟩ (h kind chars (makes_of_lexeme? hl))

theorem drop_of_lexeme? {cs chars rest : List Char} {position : Nat} {kind : Option TokenKind}
    (h : lexeme? (cs.drop position) = some (kind, chars, rest)) :
    cs.drop (position + chars.length) = rest := by
  rw [← List.drop_drop, ← lexeme?_append h, List.drop_left]

inductive Splits (cs : List Char) : Nat → Prop
  | start : Splits cs 0
  | next {position : Nat} {kind : Option TokenKind} {chars : List Char} (h : Splits cs position)
      (hl : Longest kind chars (cs.drop position)) : Splits cs (position + chars.length)

/-- Whether a text is cut up to a character with which no lexeme starts and no blanks. -/
structure Sticks (cs : List Char) (position : Nat) : Prop where
  inside : position < cs.length
  splits : Splits cs position
  stuck : ∀ kind chars, Makes chars kind → ¬ chars <+: cs.drop position

/-- Wherever a text is cut, its tokens are those of what is before and of what is behind. -/
theorem Splits.scan_eq {cs : List Char} {position : Nat} (h : Splits cs position) :
    ∃ before, scan 0 cs = (scan position (cs.drop position)).map (before ++ ·) := by
  induction h with
  | start => exact ⟨[], (map_nil_append _).symm⟩
  | @next position kind chars _ hl ih =>
    obtain ⟨before, hb⟩ := ih
    obtain ⟨rest, hrest⟩ := hl.starts
    have hlexeme := lexeme?_eq_some_iff_longest.2 ⟨hl, hrest⟩
    refine ⟨before ++ (kind.map fun k => ⟨k, chars, position⟩).toList, ?_⟩
    rw [hb, scan_of_lexeme? hlexeme, drop_of_lexeme? hlexeme]
    cases scan (position + chars.length) rest with
    | error stop => rfl
    | ok tokens => simp [Except.map]

theorem sticks_of_scan {cs : List Char} {position stop : Nat} {c : Char} (hs : Splits cs position)
    (h : scan position (cs.drop position) = .error (stop, c)) :
    Sticks cs stop ∧ cs[stop]? = some c := by
  generalize hrest : cs.drop position = rest at h
  induction position, rest using scan.induct with
  | case1 position hl =>
    rw [scan.eq_def] at h
    cases h
  | case2 position d r hl =>
    have hd : cs[position]? = some d := by
      rw [← List.head?_drop, hrest]
      rfl
    rw [scan_stop hl] at h
    cases h
    refine ⟨⟨(List.getElem?_eq_some_iff.1 hd).1, hs, ?_⟩, hd⟩
    rw [hrest]
    exact lexeme?_eq_none_iff.1 hl
  | case3 position cs' kind chars rest hl ih =>
    rw [scan_of_lexeme? hl] at h
    subst hrest
    have hlongest := (lexeme?_eq_some_iff_longest.1 hl).1
    refine ih (hs.next hlongest) (drop_of_lexeme? hl) ?_
    cases hlater : scan (position + chars.length) rest with
    | error found =>
      rw [hlater] at h
      cases h
      rfl
    | ok tokens =>
      rw [hlater] at h
      cases h

theorem scan_eq_error_iff {cs : List Char} {position : Nat} {c : Char} :
    scan 0 cs = .error (position, c) ↔ Sticks cs position ∧ cs[position]? = some c := by
  constructor
  · exact fun h => sticks_of_scan .start h
  · rintro ⟨⟨-, hs, hstuck⟩, hc⟩
    obtain ⟨before, hb⟩ := hs.scan_eq
    obtain ⟨r, hr⟩ : ∃ r, cs.drop position = c :: r := by
      obtain ⟨hlt, hget⟩ := List.getElem?_eq_some_iff.1 hc
      exact ⟨_, by rw [List.drop_eq_getElem_cons hlt, hget]⟩
    rw [hb, hr, scan_stop (hr ▸ lexeme?_eq_none_iff.2 hstuck)]
    rfl

theorem not_sticks_of_scan {cs : List Char} {tokens : List Token} (h : scan 0 cs = .ok tokens)
    (position : Nat) : ¬ Sticks cs position := by
  intro hs
  have herror := scan_eq_error_iff.2 ⟨hs, List.getElem?_eq_getElem hs.inside⟩
  rw [h] at herror
  cases herror

/-- Whether tokens at their positions and the blanks between them make up a text that starts at a
position. -/
inductive Covers : Nat → List Token → List Char → Prop
  | blanks {position : Nat} {bs : List Char} (hb : ∀ c ∈ bs, isBlank c = true) :
      Covers position [] bs
  | token {position : Nat} {t : Token} {tokens : List Token} {bs cs : List Char}
      (hb : ∀ c ∈ bs, isBlank c = true) (hp : t.position = position + bs.length)
      (h : Covers (t.position + t.chars.length) tokens cs) :
      Covers position (t :: tokens) (bs ++ (t.chars ++ cs))

theorem Covers.after_blanks {position : Nat} {tokens : List Token} {bs cs : List Char}
    (hb : ∀ c ∈ bs, isBlank c = true) (h : Covers (position + bs.length) tokens cs) :
    Covers position tokens (bs ++ cs) := by
  have hjoin : ∀ {more : List Char}, (∀ c ∈ more, isBlank c = true) →
      ∀ c ∈ bs ++ more, isBlank c = true :=
    fun hm c hc => (List.mem_append.1 hc).elim (hb c) (hm c)
  cases h with
  | blanks hm => exact .blanks (hjoin hm)
  | token hm hp hcovers =>
    rw [← List.append_assoc]
    refine .token (hjoin hm) ?_ hcovers
    rw [hp, List.length_append, Nat.add_assoc]

theorem covers_of_scan {position : Nat} {cs : List Char} {tokens : List Token}
    (h : scan position cs = .ok tokens) : Covers position tokens cs := by
  refine scan_induction (motive := fun position cs tokens => Covers position tokens cs)
    (fun position => .blanks nofun) ?_ h
  intro position kind chars rest later hl ih
  cases kind with
  | none => exact ih.after_blanks (isBlank_of_lexeme? hl)
  | some kind => exact @Covers.token position ⟨kind, chars, position⟩ later [] rest nofun rfl ih

theorem longest_of_scan {cs : List Char} {tokens : List Token} (h : scan 0 cs = .ok tokens) :
    ∀ t ∈ tokens, Longest (some t.kind) t.chars (cs.drop t.position) := by
  have hall := scan_induction
    (motive := fun position rest tokens => cs.drop position = rest →
      ∀ t ∈ tokens, Longest (some t.kind) t.chars (cs.drop t.position))
    (fun position _ => List.forall_mem_nil _) ?_ h
  · exact hall List.drop_zero
  · rintro position kind chars rest later hl ih hrest t ht
    rw [← hrest] at hl
    rcases List.mem_append.1 ht with ht | ht
    · obtain ⟨k, rfl, rfl⟩ := Option.map_eq_some_iff.1 (Option.mem_toList.1 ht)
      exact (lexeme?_eq_some_iff_longest.1 hl).1
    · exact ih (drop_of_lexeme? hl) t ht

def lexeme (t : Token) : TokenKind × List Char := (t.kind, t.chars)

/-- Whether a text is that of tokens with blanks between any two of them, and some in front of the
first and behind the last or none. -/
inductive Spaced : List Token → List Char → Prop
  | blanks {bs : List Char} (hb : ∀ c ∈ bs, isBlank c = true) : Spaced [] bs
  | token {t : Token} {tokens : List Token} {bs cs : List Char}
      (hb : ∀ c ∈ bs, isBlank c = true) (h : Spaced tokens cs)
      (hgap : ∀ c ∈ cs.head?, isBlank c = true) : Spaced (t :: tokens) (bs ++ (t.chars ++ cs))

theorem Spaced.scan_eq_ok {tokens : List Token} {cs : List Char} (h : Spaced tokens cs)
    (ha : ∀ t ∈ tokens, t.kind.Admits t.chars) (position : Nat) :
    ∃ again, scan position cs = .ok again ∧ again.map lexeme = tokens.map lexeme := by
  induction h generalizing position with
  | blanks hb => exact ⟨[], scan_of_blanks hb position, rfl⟩
  | @token t tokens bs cs hb _ hgap ih =>
    have hadmits := ha t List.mem_cons_self
    have hends := TokenKind.ends_of_blank hgap t.kind t.chars
    obtain ⟨again, hs, hmap⟩ := ih (fun u hu => ha u (List.mem_cons_of_mem t hu))
      (position + bs.length + t.chars.length)
    refine ⟨⟨t.kind, t.chars, position + bs.length⟩ :: again, ?_, ?_⟩
    · rw [scan_blanks hb, scan_of_lexeme? (lexeme?_eq_some_iff.2 ⟨hadmits, hends⟩), hs]
      rfl
    · rw [List.map_cons, List.map_cons, hmap]
      rfl

theorem alike_of_lexeme {t u : Token} (h : lexeme u = lexeme t) :
    u.kind = t.kind ∧ u.chars = t.chars ∧ u.text = t.text := by
  obtain ⟨hkind, hchars⟩ := Prod.mk.inj h
  exact ⟨hkind, hchars, by rw [text, text, hchars]⟩

theorem overlong?_of_lexeme {t u : Token} (h : lexeme u = lexeme t) :
    u.overlong? = t.overlong? := by
  obtain ⟨hkind, hchars, -⟩ := alike_of_lexeme h
  rw [overlong?, overlong?, digits, digits, hkind, hchars]

theorem IsOperator.of_lexeme {t u : Token} {operator : String} (h : lexeme u = lexeme t)
    (ht : t.IsOperator operator) : u.IsOperator operator := by
  obtain ⟨hkind, -, htext⟩ := alike_of_lexeme h
  exact ⟨hkind.trans ht.1, htext.trans ht.2⟩

theorem exists_of_map_lexeme {us ts vs : List Token} {t : Token}
    (h : us.map lexeme = (ts ++ t :: vs).map lexeme) : ∃ before u behind,
      us = before ++ u :: behind ∧ before.map lexeme = ts.map lexeme ∧ lexeme u = lexeme t ∧
        behind.map lexeme = vs.map lexeme := by
  rw [List.map_append] at h
  obtain ⟨before, rest, rfl, hbefore, hrest⟩ := List.map_eq_append_iff.1 h
  obtain ⟨u, behind, rfl, hu, hbehind⟩ := List.map_eq_cons_iff.1 hrest
  exact ⟨before, u, behind, rfl, hbefore, hu, hbehind⟩

end Token

def Node.unplaced : Node → Node
  | .literal x => .literal x
  | .variableAt name _ => .variableAt name 0
  | .orderAt n _ => .orderAt n 0
  | .signed sign operand => .signed sign operand.unplaced
  | .binary operator left right => .binary operator left.unplaced right.unplaced

open Token in
/-- Tokens that are the same but for their positions derive the same tree but for its positions. -/
theorem Grammar.Derives.unplaced {part : Stratum} {ts : List Token} {node : Node}
    (h : Derives part ts node) {us : List Token} (hus : us.map lexeme = ts.map lexeme) :
    ∃ node', Derives part us node' ∧ node'.unplaced = node.unplaced := by
  induction h generalizing us with
  | number hk hx =>
    obtain ⟨u, rfl, hu⟩ := List.map_eq_singleton_iff.1 hus
    obtain ⟨hkind, -, htext⟩ := alike_of_lexeme hu
    exact ⟨_, .number (hkind.trans hk) (htext ▸ hx), rfl⟩
  | name hk =>
    obtain ⟨u, rfl, hu⟩ := List.map_eq_singleton_iff.1 hus
    obtain ⟨hkind, -, htext⟩ := alike_of_lexeme hu
    exact ⟨_, .name (hkind.trans hk), by rw [Node.unplaced, Node.unplaced, htext]⟩
  | order hk hn =>
    obtain ⟨u, rfl, hu⟩ := List.map_eq_singleton_iff.1 hus
    obtain ⟨hkind, hchars, -⟩ := alike_of_lexeme hu
    exact ⟨_, .order (hkind.trans hk) (by rwa [digits, hchars]), rfl⟩
  | enclosed ht hu _ ih =>
    obtain ⟨opening, rest, rfl, hopening, hrest⟩ := List.map_eq_cons_iff.1 hus
    obtain ⟨inner, closing, behind, rfl, hinner, hclosing, hbehind⟩ := exists_of_map_lexeme hrest
    obtain rfl : behind = [] := List.map_eq_nil_iff.1 hbehind
    obtain ⟨node', hd, hn⟩ := ih hinner
    exact ⟨node', .enclosed ((alike_of_lexeme hopening).1.trans ht)
      ((alike_of_lexeme hclosing).1.trans hu) hd, hn⟩
  | ofPrimary _ ih =>
    obtain ⟨node', hd, hn⟩ := ih hus
    exact ⟨node', .ofPrimary hd, hn⟩
  | ofOperand _ ih =>
    obtain ⟨node', hd, hn⟩ := ih hus
    exact ⟨node', .ofOperand hd, hn⟩
  | ofProduct _ ih =>
    obtain ⟨node', hd, hn⟩ := ih hus
    exact ⟨node', .ofProduct hd, hn⟩
  | signed ht _ ih =>
    obtain ⟨t', us', rfl, ht', hus⟩ := List.map_eq_cons_iff.1 hus
    obtain ⟨node', hd, hn⟩ := ih hus
    exact ⟨_, .signed (ht.of_lexeme ht') hd, by rw [Node.unplaced, Node.unplaced, hn]⟩
  | multiplied _ ho ht _ ihl ihr =>
    obtain ⟨lefts, t', rights, rfl, hlefts, ht', hrights⟩ := exists_of_map_lexeme hus
    obtain ⟨left', hl, hln⟩ := ihl hlefts
    obtain ⟨right', hr, hrn⟩ := ihr hrights
    exact ⟨_, .multiplied hl ho (ht.of_lexeme ht') hr, by
      rw [Node.unplaced, Node.unplaced, hln, hrn]⟩
  | added _ ho ht _ ihl ihr =>
    obtain ⟨lefts, t', rights, rfl, hlefts, ht', hrights⟩ := exists_of_map_lexeme hus
    obtain ⟨left', hl, hln⟩ := ihl hlefts
    obtain ⟨right', hr, hrn⟩ := ihr hrights
    exact ⟨_, .added hl ho (ht.of_lexeme ht') hr, by
      rw [Node.unplaced, Node.unplaced, hln, hrn]⟩

open Token in
/-- Expressions with the same tokens but for their positions are read as the same tree but for its
positions, or both are not read. -/
theorem Node.read_unplaced {s t : String} {ts us : List Token} (hs : Token.read s = .ok ts)
    (ht : Token.read t = .ok us) (h : us.map lexeme = ts.map lexeme) :
    (read t).toOption.map unplaced = (read s).toOption.map unplaced := by
  have hread : ∀ {s t : String} {ts us : List Token}, Token.read s = .ok ts →
      Token.read t = .ok us → us.map lexeme = ts.map lexeme → ∀ {node : Node},
      read s = .ok node → ∃ node', read t = .ok node' ∧ node'.unplaced = node.unplaced := by
    intro s t ts us hs ht h node hn
    obtain ⟨tokens, htokens, hd, hshort⟩ := read_eq_ok.1 hn
    obtain rfl : ts = tokens := Except.ok.inj (hs.symm.trans htokens)
    obtain ⟨node', hd', hnode⟩ := hd.unplaced h
    have hshort' : ∀ u ∈ us, u.overlong? = none := by
      intro u hu
      obtain ⟨t, htm, hlexeme⟩ := List.mem_map.1 (h ▸ List.mem_map_of_mem hu)
      rw [overlong?_of_lexeme hlexeme.symm]
      exact hshort t htm
    exact ⟨node', read_eq_ok.2 ⟨us, ht, hd', hshort'⟩, hnode⟩
  cases hn : read s with
  | ok node =>
    obtain ⟨node', hn', hnode⟩ := hread hs ht h hn
    rw [hn']
    exact congrArg some hnode
  | error e =>
    cases hn' : read t with
    | ok node' =>
      obtain ⟨node, hnode, -⟩ := hread ht hs h.symm hn'
      rw [hn] at hnode
      cases hnode
    | error e' => rfl

namespace Token

/-- Either the tokens of an expression, each the longest lexeme at its position, make up the text
with the blanks between them; or the character is reported at which the text sticks, which it does
nowhere else. Tokens with any blanks between them are read as the same tokens but for their
positions, and so as the same tree but for its positions. -/
theorem read_lossless (s : String) :
    ((∃ tokens, read s = .ok tokens ∧ Covers 0 tokens s.toList ∧
        tokens.Pairwise (fun t u =>
          t.position < u.position ∧ t.position + t.chars.length ≤ u.position) ∧
        (∀ t ∈ tokens, Longest (some t.kind) t.chars (s.toList.drop t.position)) ∧
        ∀ position, ¬ Sticks s.toList position) ∨
      ∃ position c, read s = .error (.expression s position (.character c)) ∧
        s.toList[position]? = some c ∧ Sticks s.toList position ∧
        ∀ other, Sticks s.toList other → other = position) ∧
    ∀ tokens, read s = .ok tokens → ∀ t : String, Spaced tokens t.toList →
      (∃ again, read t = .ok again ∧ again.map lexeme = tokens.map lexeme) ∧
      (Node.read t).toOption.map Node.unplaced = (Node.read s).toOption.map Node.unplaced := by
  refine ⟨?_, fun tokens h t ht => ?_⟩
  · cases hs : scan 0 s.toList with
    | ok tokens =>
      have hplaced := placed_of_scan hs
      exact .inl ⟨tokens, read_eq_ok_iff.2 hs, covers_of_scan hs,
        hplaced.ascending.and hplaced.apart, longest_of_scan hs, not_sticks_of_scan hs⟩
    | error stop =>
      obtain ⟨position, c⟩ := stop
      obtain ⟨hsticks, hc⟩ := scan_eq_error_iff.1 hs
      refine .inr ⟨position, c, ?_, hc, hsticks, fun other ho => ?_⟩
      · rw [read, hs]
      · have herror := scan_eq_error_iff.2 ⟨ho, List.getElem?_eq_getElem ho.inside⟩
        rw [hs] at herror
        cases herror
        rfl
  · obtain ⟨again, hagain, hmap⟩ := ht.scan_eq_ok (admits_of_mem_scan (read_eq_ok_iff.1 h)) 0
    have hread := read_eq_ok_iff.2 hagain
    exact ⟨⟨again, hread, hmap⟩, Node.read_unplaced h hread hmap⟩

theorem read_lossless_joined : ∃ tokens, read "a-.5" = .ok tokens ∧
    Spaced tokens "a - .5".toList ∧
    (Node.read "a - .5").toOption.map Node.unplaced =
      (Node.read "a-.5").toOption.map Node.unplaced := by
  have hread : read "a-.5" = .ok [⟨.name, ['a'], 0⟩, ⟨.operator, ['-'], 1⟩,
      ⟨.number, ['.', '5'], 2⟩] := by cbv
  have hblank : isBlank ' ' = true := by decide
  have hgap : ∀ {cs : List Char}, ∀ c ∈ (' ' :: cs).head?, isBlank c = true := by
    intro cs c hc
    cases hc
    exact hblank
  have hpoint : Spaced [⟨.number, ['.', '5'], 2⟩] [' ', '.', '5'] :=
    @Spaced.token ⟨.number, ['.', '5'], 2⟩ [] [' '] [] (List.forall_mem_singleton.2 hblank)
      (.blanks nofun) nofun
  have hminus :
      Spaced [⟨.operator, ['-'], 1⟩, ⟨.number, ['.', '5'], 2⟩] [' ', '-', ' ', '.', '5'] :=
    @Spaced.token ⟨.operator, ['-'], 1⟩ _ [' '] _ (List.forall_mem_singleton.2 hblank) hpoint hgap
  have hspaced : Spaced [⟨.name, ['a'], 0⟩, ⟨.operator, ['-'], 1⟩, ⟨.number, ['.', '5'], 2⟩]
      "a - .5".toList :=
    @Spaced.token ⟨.name, ['a'], 0⟩ _ [] _ nofun hminus hgap
  exact ⟨_, hread, hspaced, ((read_lossless "a-.5").2 _ hread "a - .5" hspaced).2⟩

/-- A number ends in front of a second point, with which another starts. -/
example : (read "1.5.25").map (·.map text) = .ok ["1.5", ".25"] := by cbv

end Token
end LedgerReport
