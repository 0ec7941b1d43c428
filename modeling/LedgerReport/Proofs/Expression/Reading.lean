import LedgerReport.Proofs.Expression.Grammar
/-!
What the reader of expressions reads.

The reader finds every derivation (`Derives.isRead`), up to a row whose number has too many digits:
behind such a row nothing is read. So an expression is read as a tree exactly if its tokens derive
the tree and none of its rows has too many digits; and tokens derive one tree at most
(`Derives.unique`).
-/

set_option autoImplicit false

namespace LedgerReport
open Grammar

namespace Node

abbrev Reading := Except Stop (Node × List Token)

def plain {bound : List Token → Prop}
    (x : Except Stop (Node × { rest : List Token // bound rest })) : Reading :=
  x.map fun p => (p.1, p.2.1)

theorem plain_eq_ok {bound : List Token → Prop}
    {x : Except Stop (Node × { rest : List Token // bound rest })} {node : Node}
    {rest : List Token} : plain x = .ok (node, rest) ↔ ∃ h, x = .ok (node, ⟨rest, h⟩) := by
  rw [plain, except_map_eq_ok]
  constructor
  · rintro ⟨⟨node', rest', h⟩, rfl, he⟩
    cases he
    exact ⟨h, rfl⟩
  · rintro ⟨h, rfl⟩
    exact ⟨_, rfl, rfl⟩

theorem plain_readOperand_signed {t : Token} {sign : Sign} (ht : Sign.ofToken? t = some sign)
    (r : List Token) : plain (readOperand (t :: r)) =
      plain (readOperand r) >>= fun p => .ok (.signed sign p.1, p.2) := by
  rw [readOperand]
  simp only [ht]
  cases readOperand r <;> rfl

theorem plain_readOperand_leaf {t : Token} {leaf : Except Stop Node} (hs : Sign.ofToken? t = none)
    (h : ofToken? t = some leaf) (r : List Token) :
    plain (readOperand (t :: r)) = leaf.map fun node => (node, r) := by
  rw [readOperand]
  simp only [hs, h]
  cases leaf <;> rfl

def closed (p : Node × List Token) : Reading :=
  match p.2 with
  | [] => .error (.fault none .unclosed)
  | u :: rest =>
    if u.kind = .closing then .ok (p.1, rest) else .error (.fault (some u.position) .unclosed)

theorem plain_readOperand_opening {t : Token} (ht : t.kind = .opening) (r : List Token) :
    plain (readOperand (t :: r)) = plain (readSum r) >>= closed := by
  rw [readOperand]
  simp only [Sign.ofToken?, ofToken?, ht, reduceCtorEq, ↓reduceIte]
  cases readSum r with
  | error stop => rfl
  | ok p =>
    obtain ⟨node, rest, hr⟩ := p
    cases rest with
    | nil => rfl
    | cons u rest =>
      change plain (if u.kind = .closing then _ else _) = if u.kind = .closing then _ else _
      split <;> rfl

theorem plain_readProductFrom_cons {t : Token} {op : Operator}
    (ht : Operator.ofProductToken? t = some op) (left : Node) (r : List Token) :
    plain (readProductFrom left (t :: r)) =
      plain (readOperand r) >>= fun p => plain (readProductFrom (.binary op left p.1) p.2) := by
  rw [readProductFrom]
  simp only [ht]
  cases readOperand r with
  | error stop => rfl
  | ok p =>
    change plain ((readProductFrom (.binary op left p.1) p.2.1).bind _) =
      plain (readProductFrom (.binary op left p.1) p.2.1)
    cases readProductFrom (.binary op left p.1) p.2.1 <;> rfl

theorem plain_readProduct (ts : List Token) : plain (readProduct ts) =
    plain (readOperand ts) >>= fun p => plain (readProductFrom p.1 p.2) := by
  rw [readProduct]
  cases readOperand ts with
  | error stop => rfl
  | ok p =>
    change plain ((readProductFrom p.1 p.2.1).bind _) = plain (readProductFrom p.1 p.2.1)
    cases readProductFrom p.1 p.2.1 <;> rfl

theorem plain_readSumFrom_cons {t : Token} {op : Operator}
    (ht : Operator.ofSumToken? t = some op) (left : Node) (r : List Token) :
    plain (readSumFrom left (t :: r)) =
      plain (readProduct r) >>= fun p => plain (readSumFrom (.binary op left p.1) p.2) := by
  rw [readSumFrom]
  simp only [ht]
  cases readProduct r with
  | error stop => rfl
  | ok p =>
    change plain ((readSumFrom (.binary op left p.1) p.2.1).bind _) =
      plain (readSumFrom (.binary op left p.1) p.2.1)
    cases readSumFrom (.binary op left p.1) p.2.1 <;> rfl

theorem plain_readSum (ts : List Token) : plain (readSum ts) =
    plain (readProduct ts) >>= fun p => plain (readSumFrom p.1 p.2) := by
  rw [readSum]
  cases readProduct ts with
  | error stop => rfl
  | ok p =>
    change plain ((readSumFrom p.1 p.2.1).bind _) = plain (readSumFrom p.1 p.2.1)
    cases readSumFrom p.1 p.2.1 <;> rfl

def EndsProduct (rest : List Token) : Prop := ∀ t ∈ rest.head?, Operator.ofProductToken? t = none

def EndsSum (rest : List Token) : Prop :=
  EndsProduct rest ∧ ∀ t ∈ rest.head?, Operator.ofSumToken? t = none

theorem endsSum_nil : EndsSum [] := ⟨nofun, nofun⟩

theorem endsProduct_of_none {t : Token} (ht : Operator.ofProductToken? t = none)
    (rest : List Token) : EndsProduct (t :: rest) := by
  rintro u hu
  cases hu
  exact ht

theorem endsSum_of_none {t : Token} {rest : List Token} (h : EndsProduct (t :: rest))
    (ht : Operator.ofSumToken? t = none) : EndsSum (t :: rest) := by
  refine ⟨h, ?_⟩
  rintro u hu
  cases hu
  exact ht

theorem endsSum_cons {t : Token} (ht : t.kind ≠ .operator) (rest : List Token) :
    EndsSum (t :: rest) := by
  refine endsSum_of_none (endsProduct_of_none (if_neg ht) rest) ?_
  rw [Operator.ofSumToken?, Sign.ofToken?_of_kind ht]
  rfl

theorem endsProduct_cons {t : Token} {op : Operator} (ht : Operator.ofSumToken? t = some op)
    (rest : List Token) : EndsProduct (t :: rest) := by
  rintro u hu
  cases hu
  cases hp : Operator.ofProductToken? t with
  | none => rfl
  | some op' =>
    obtain ⟨hs, ht⟩ := Operator.ofSumToken?_eq_some_iff.1 ht
    obtain ⟨hs', ht'⟩ := Operator.ofProductToken?_eq_some_iff.1 hp
    have he : op.text = op'.text := ht.2.symm.trans ht'.2
    cases op <;> cases hs <;> cases op' <;> cases hs' <;> exact absurd he (by decide)

theorem plain_readProductFrom_of_endsProduct {rest : List Token} (h : EndsProduct rest)
    (node : Node) : plain (readProductFrom node rest) = .ok (node, rest) := by
  cases rest with
  | nil =>
    rw [readProductFrom]
    rfl
  | cons t r =>
    rw [readProductFrom]
    split
    · rename_i op ho
      rw [h t rfl] at ho
      cases ho
    · rfl

theorem plain_readSumFrom_of_endsSum {rest : List Token} (h : EndsSum rest) (node : Node) :
    plain (readSumFrom node rest) = .ok (node, rest) := by
  cases rest with
  | nil =>
    rw [readSumFrom]
    rfl
  | cons t r =>
    rw [readSumFrom]
    split
    · rename_i op ho
      rw [h.2 t rfl] at ho
      cases ho
    · rfl

/-- An outcome behind tokens, unless one of them is a row with too many digits. -/
def past {α : Type} (ts : List Token) (x : Except Stop α) : Except Stop α :=
  match ts.findSome? Token.overlong? with
  | some digits => .error (.overlong digits)
  | none => x

section
variable {α β : Type} {x : Except Stop α}

theorem past_of_forall {ts : List Token} (h : ∀ t ∈ ts, t.overlong? = none) (x : Except Stop α) :
    past ts x = x := by
  rw [past, List.findSome?_eq_none_iff.2 h]

theorem past_of_eq_ok {ts : List Token} {a : α} (h : past ts x = .ok a) :
    (∀ t ∈ ts, t.overlong? = none) ∧ x = .ok a := by
  unfold past at h
  split at h
  · cases h
  · rename_i hn
    exact ⟨List.findSome?_eq_none_iff.1 hn, h⟩

theorem past_cons {t : Token} (ht : t.kind ≠ .order) (ts : List Token) (x : Except Stop α) :
    past (t :: ts) x = past ts x := by
  rw [past, List.findSome?_cons, Token.overlong?_of_kind ht]
  rfl

theorem past_append (ts us : List Token) (x : Except Stop α) :
    past (ts ++ us) x = past ts (past us x) := by
  unfold past
  rw [List.findSome?_append]
  cases ts.findSome? Token.overlong? <;> rfl

theorem past_bind (ts : List Token) (x : Except Stop α) (f : α → Except Stop β) :
    past ts x >>= f = past ts (x >>= f) := by
  unfold past
  split <;> rfl

end

end Node

namespace Grammar
open Node

/-- Whether the reader finds a part with its tree at the start of any tokens, if no row in it has
too many digits. A chain is found with what it goes on with, since the reader takes the longest
one. -/
def Stratum.Finds (ts : List Token) (node : Node) : Stratum → Prop
  | .primary | .operand => ∀ rest, plain (readOperand (ts ++ rest)) = past ts (.ok (node, rest))
  | .product => ∀ rest,
      plain (readProduct (ts ++ rest)) = past ts (plain (readProductFrom node rest))
  | .sum => ∀ rest, EndsProduct rest →
      plain (readSum (ts ++ rest)) = past ts (plain (readSumFrom node rest))

theorem Derives.isRead {part : Stratum} {ts : List Token} {node : Node} (h : Derives part ts node)
    (hts : ∀ t ∈ ts, t.IsLegible) : part.Finds ts node := by
  induction h with
  | @number t x hk hx =>
    intro rest
    have hleaf : ofToken? t = some (.ok (.literal x)) := by
      simp only [ofToken?, hk, hx, Option.getD_some]
    have hsign : Sign.ofToken? t = none := Sign.ofToken?_of_kind (by rw [hk]; decide)
    rw [List.singleton_append, plain_readOperand_leaf hsign hleaf, past_cons (by rw [hk]; decide)]
    rfl
  | @name t hk =>
    intro rest
    have hleaf : ofToken? t = some (.ok (.variableAt t.text t.position)) := by
      simp only [ofToken?, hk]
    have hsign : Sign.ofToken? t = none := Sign.ofToken?_of_kind (by rw [hk]; decide)
    rw [List.singleton_append, plain_readOperand_leaf hsign hleaf, past_cons (by rw [hk]; decide)]
    rfl
  | @order t n hk hn =>
    intro rest
    have hleaf : ofToken? t = some (ofOrder t) := by simp only [ofToken?, hk]
    obtain ⟨-, hvalue⟩ := Numeral.digitsValue?_eq_some_iff.1 hn
    have hsign : Sign.ofToken? t = none := Sign.ofToken?_of_kind (by rw [hk]; decide)
    rw [List.singleton_append, plain_readOperand_leaf hsign hleaf,
      ofOrder_eq hk (hts t List.mem_cons_self), hvalue, past, List.findSome?_singleton]
    cases t.overlong? <;> rfl
  | @enclosed t u ts node ht hu _ ih =>
    intro rest
    -- the closing parenthesis ends the sum inside
    have hs := endsSum_cons (t := u) (by rw [hu]; decide) rest
    have hi := ih (fun v hv => hts v (by simp [hv])) (u :: rest) hs.1
    rw [plain_readSumFrom_of_endsSum hs] at hi
    have hclosed : closed (node, u :: rest) = .ok (node, rest) := if_pos hu
    rw [List.cons_append, List.append_assoc, List.singleton_append, plain_readOperand_opening ht,
      hi, past_bind, past_cons (by rw [ht]; decide), past_append, past_cons (by rw [hu]; decide)]
    exact congrArg (past ts) hclosed
  | ofPrimary _ ih => exact ih hts
  | @signed t ts sign node ht _ ih =>
    intro rest
    have hi := ih (fun v hv => hts v (List.mem_cons_of_mem _ hv)) rest
    rw [List.cons_append, plain_readOperand_signed (Sign.ofToken?_eq_some_iff.2 ht), hi, past_bind,
      past_cons (by rw [ht.1]; decide)]
    rfl
  | @ofOperand ts node _ ih =>
    intro rest
    rw [plain_readProduct, ih hts rest, past_bind]
    rfl
  | @ofProduct ts node _ ih =>
    intro rest he
    rw [plain_readSum, ih hts rest, plain_readProductFrom_of_endsProduct he, past_bind]
    rfl
  | @multiplied t ts us op left right _ ho ht _ ihl ihr =>
    intro rest
    -- the chain on the left goes on with the operator and the operand on the right
    have hl := ihl (fun v hv => hts v (by simp [hv])) (t :: (us ++ rest))
    have hr := ihr (fun v hv => hts v (by simp [hv])) rest
    rw [plain_readProductFrom_cons (Operator.ofProductToken?_eq_some_iff.2 ⟨ho, ht⟩), hr,
      past_bind] at hl
    rw [List.append_assoc, List.cons_append, hl, past_append, past_cons (by rw [ht.1]; decide)]
    rfl
  | @added t ts us op left right _ ho ht _ ihl ihr =>
    intro rest he
    have ht' := Operator.ofSumToken?_eq_some_iff.2 ⟨ho, ht⟩
    have hl := ihl (fun v hv => hts v (by simp [hv])) (t :: (us ++ rest)) (endsProduct_cons ht' _)
    have hr := ihr (fun v hv => hts v (by simp [hv])) rest
    rw [plain_readProductFrom_of_endsProduct he] at hr
    rw [plain_readSumFrom_cons ht', hr, past_bind] at hl
    rw [List.append_assoc, List.cons_append, hl, past_append, past_cons (by rw [ht.1]; decide)]
    rfl

theorem Derives.ne_nil {part : Stratum} {ts : List Token} {node : Node}
    (h : Derives part ts node) : ts ≠ [] := by
  induction h with
  | ofPrimary _ ih | ofOperand _ ih | ofProduct _ ih => exact ih
  | _ => simp

end Grammar

namespace Node

def ended (p : Node × List Token) : Except Stop Node :=
  match p.2 with
  | [] => .ok p.1
  | t :: _ =>
    if t.kind = .closing then .error (.fault (some t.position) .unbalanced)
    else .error (.fault (some t.position) (.token t.text))

theorem ofTokens_eq {tokens : List Token} (hn : tokens ≠ []) :
    ofTokens tokens = plain (readSum tokens) >>= ended := by
  unfold ofTokens
  split
  · exact absurd rfl hn
  · cases readSum tokens with
    | error stop => rfl
    | ok p =>
      obtain ⟨node, rest, hr⟩ := p
      cases rest <;> rfl

/-- The tokens of an expression are read as the tree that they derive, unless a row among them has
too many digits. -/
theorem ofTokens_of_derives {tokens : List Token} {node : Node} (h : Derives .sum tokens node)
    (hts : ∀ t ∈ tokens, t.IsLegible) : ofTokens tokens = past tokens (.ok node) := by
  have hr := h.isRead hts [] endsSum_nil.1
  rw [List.append_nil, plain_readSumFrom_of_endsSum endsSum_nil] at hr
  rw [ofTokens_eq h.ne_nil, hr, past_bind]
  rfl

theorem ofTokens_eq_ok_iff {tokens : List Token} (hts : ∀ t ∈ tokens, t.IsLegible) {node : Node} :
    ofTokens tokens = .ok node ↔
      Derives .sum tokens node ∧ ∀ t ∈ tokens, t.overlong? = none := by
  constructor
  · intro h
    have hn : tokens ≠ [] := by
      rintro rfl
      cases h
    have hderives : Derives .sum tokens node := by
      rw [ofTokens_eq hn] at h
      obtain ⟨⟨node', rest⟩, hr, h⟩ := bind_eq_ok.1 h
      obtain ⟨hb, hr⟩ := plain_eq_ok.1 hr
      obtain ⟨used, hu, hd⟩ := derives_of_readSum hts hr
      unfold ended at h
      dsimp only at h hu
      split at h
      · cases h
        rw [List.append_nil] at hu
        rwa [hu]
      · split at h <;> cases h
    rw [ofTokens_of_derives hderives hts] at h
    exact ⟨hderives, (past_of_eq_ok h).1⟩
  · rintro ⟨hd, hshort⟩
    rw [ofTokens_of_derives hd hts, past_of_forall hshort]

end Node

/-- A token with a reference to a row taken for a name, whatever the number of its digits. -/
def Token.masked (t : Token) : Token := if t.kind = .order then { t with kind := .name } else t

theorem Token.masked_of_kind {t : Token} (h : t.kind ≠ .order) : t.masked = t := if_neg h

theorem Token.masked_kind_ne (t : Token) : t.masked.kind ≠ .order := by
  unfold masked
  split
  · exact (nofun : TokenKind.name ≠ .order)
  · assumption

/-- The tree in which the names that stand for rows are references to these rows again. -/
def Node.unmasked : Node → Node
  | .variableAt name position => match name.toList with
    | '@' :: ds => .orderAt (Text.digitsValue ds) position
    | _ => .variableAt name position
  | .signed sign operand => .signed sign operand.unmasked
  | .binary op left right => .binary op left.unmasked right.unmasked
  | node => node

namespace Grammar
open Node

theorem Derives.masked {part : Stratum} {ts : List Token} {node : Node} (h : Derives part ts node)
    (hts : ∀ t ∈ ts, t.kind.Admits t.chars) :
    ∃ m, Derives part (ts.map Token.masked) m ∧ m.unmasked = node := by
  induction h with
  | number hk hx =>
    rw [List.map_singleton, Token.masked_of_kind (by rw [hk]; decide)]
    exact ⟨_, .number hk hx, rfl⟩
  | @name t hk =>
    rw [List.map_singleton, Token.masked_of_kind (by rw [hk]; decide)]
    refine ⟨_, .name hk, ?_⟩
    have ha := hts t List.mem_cons_self
    rw [hk] at ha
    obtain ⟨c, r, hc, hstart, -⟩ := ha
    unfold unmasked
    split
    · rename_i hat
      rw [Token.text, String.toList_ofList, hc] at hat
      cases hat
      exact absurd hstart (by decide)
    · rfl
  | @order t n hk hn =>
    refine ⟨_, .name (t := t.masked) (by rw [Token.masked, if_pos hk]), ?_⟩
    have ha := hts t List.mem_cons_self
    rw [hk] at ha
    obtain ⟨ds, hc, -⟩ := ha
    have hvalue := (Numeral.digitsValue?_eq_some_iff.1 hn).2
    rw [Token.digits, hc] at hvalue
    rw [Token.masked, if_pos hk, Token.text, hc]
    simp only [unmasked, String.toList_ofList]
    exact congrArg (Node.orderAt · t.position) hvalue
  | @enclosed t u ts node ht hu _ ih =>
    obtain ⟨m, hm, he⟩ := ih fun v hv => hts v (by simp [hv])
    refine ⟨m, ?_, he⟩
    rw [List.map_cons, List.map_append, List.map_singleton,
      Token.masked_of_kind (by rw [ht]; decide), Token.masked_of_kind (t := u) (by rw [hu]; decide)]
    exact .enclosed ht hu hm
  | ofPrimary _ ih =>
    obtain ⟨m, hm, he⟩ := ih hts
    exact ⟨m, .ofPrimary hm, he⟩
  | ofOperand _ ih =>
    obtain ⟨m, hm, he⟩ := ih hts
    exact ⟨m, .ofOperand hm, he⟩
  | ofProduct _ ih =>
    obtain ⟨m, hm, he⟩ := ih hts
    exact ⟨m, .ofProduct hm, he⟩
  | @signed t ts sign node ht _ ih =>
    obtain ⟨m, hm, rfl⟩ := ih fun v hv => hts v (List.mem_cons_of_mem _ hv)
    rw [List.map_cons, Token.masked_of_kind (by rw [ht.1]; decide)]
    exact ⟨_, .signed ht hm, rfl⟩
  | @multiplied t ts us op left right _ ho ht _ ihl ihr =>
    obtain ⟨l, hl, rfl⟩ := ihl fun v hv => hts v (by simp [hv])
    obtain ⟨r, hr, rfl⟩ := ihr fun v hv => hts v (by simp [hv])
    rw [List.map_append, List.map_cons, Token.masked_of_kind (by rw [ht.1]; decide)]
    exact ⟨_, .multiplied hl ho ht hr, rfl⟩
  | @added t ts us op left right _ ho ht _ ihl ihr =>
    obtain ⟨l, hl, rfl⟩ := ihl fun v hv => hts v (by simp [hv])
    obtain ⟨r, hr, rfl⟩ := ihr fun v hv => hts v (by simp [hv])
    rw [List.map_append, List.map_cons, Token.masked_of_kind (by rw [ht.1]; decide)]
    exact ⟨_, .added hl ho ht hr, rfl⟩

/-- Tokens derive one tree at most. Those with references to rows taken for names are read as their
tree, however many digits the references have. -/
theorem Derives.unique {tokens : List Token} {node node' : Node} (h : Derives .sum tokens node)
    (h' : Derives .sum tokens node') (hts : ∀ t ∈ tokens, t.kind.Admits t.chars) :
    node = node' := by
  have hlegible : ∀ t ∈ tokens.map Token.masked, t.IsLegible := by
    intro u hu
    obtain ⟨t, ht, rfl⟩ := List.mem_map.1 hu
    by_cases hk : t.kind = .order
    · rw [Token.masked, if_pos hk]
      exact ⟨nofun, nofun⟩
    · rw [Token.masked_of_kind hk]
      exact Token.isLegible_of_admits (hts t ht)
  have hshort : ∀ t ∈ tokens.map Token.masked, t.overlong? = none := by
    intro u hu
    obtain ⟨t, -, rfl⟩ := List.mem_map.1 hu
    exact Token.overlong?_of_kind t.masked_kind_ne
  obtain ⟨m, hm, rfl⟩ := h.masked hts
  obtain ⟨m', hm', rfl⟩ := h'.masked hts
  have hread := (ofTokens_eq_ok_iff hlegible).2 ⟨hm, hshort⟩
  rw [(ofTokens_eq_ok_iff hlegible).2 ⟨hm', hshort⟩] at hread
  rw [Except.ok.inj hread]

end Grammar

namespace Node

theorem read_eq_ok {expression : String} {node : Node} : read expression = .ok node ↔
    ∃ tokens, Token.read expression = .ok tokens ∧ Derives .sum tokens node ∧
      ∀ t ∈ tokens, t.overlong? = none := by
  unfold read
  constructor
  · intro h
    obtain ⟨tokens, ht, h⟩ := bind_eq_ok.1 h
    refine ⟨tokens, ht, ?_⟩
    split at h
    · rename_i hn
      cases h
      exact (ofTokens_eq_ok_iff (Token.isLegible_of_read ht)).1 hn
    · cases h
    · cases h
  · rintro ⟨tokens, ht, hd⟩
    refine bind_eq_ok.2 ⟨tokens, ht, ?_⟩
    rw [(ofTokens_eq_ok_iff (Token.isLegible_of_read ht)).2 hd]
    rfl

theorem read_error {expression : String} {e : Error} (h : read expression = .error e) :
    (∃ position fault, e = .expression expression position fault) ∨
      ∃ digits, e = .notWhole digits := by
  unfold read at h
  cases ht : Token.read expression with
  | error e' =>
    rw [ht] at h
    unfold Token.read at ht
    split at ht
    · cases ht
    · cases ht
      cases h
      exact .inl ⟨_, _, rfl⟩
  | ok tokens =>
    simp only [ht, bind, Except.bind] at h
    split at h
    · cases h
    · cases h
      exact .inl ⟨_, _, rfl⟩
    · cases h
      exact .inr ⟨_, rfl⟩

example : read "a-b*-c-@7" = .ok (.binary .subtract
    (.binary .subtract (.variableAt "a" 0)
      (.binary .multiply (.variableAt "b" 2) (.signed .minus (.variableAt "c" 5))))
    (.orderAt 7 7)) := by
  cbv

end Node
end LedgerReport
