import EventStream.Proofs.Syntax.Accepted
import EventStream.Proofs.Syntax.Enclosed

namespace EventStream

namespace Parser

theorem derives_reads {p : Phrase} {us : List Token} (h : Derives p us) : p.IsRead us := by
  induction h with
  | unconditional h ih => exact unconditional_reads ih h.begins
  | conditional _ _ _ hc hy hn => exact conditional_reads hc hy hn
  | operand h ih => exact operand_chain_reads ih h.begins
  | operator _ _ h he hd => exact operator_reads he hd h.begins
  | unsigned h ih => exact unsigned_reads ih h.begins
  | sign _ h ih => exact sign_reads ih h.begins
  | primary h ih => exact first_selection_reads ih h.begins
  | member _ _ ih => exact member_reads ih
  | method _ _ _ ih ha => exact method_reads ih ha
  | index _ _ ih hp => exact index_reads ih hp
  | null | yes | no | int | double =>
    refine literal_reads fun {fuel room ts} ht => ?_
    unfold primary
    rw [ht]
  | string h => exact string_reads h
  | «variable» => exact variable_reads
  | call hn _ ih => exact call_reads ih (if_neg hn)
  | has _ ih => exact call_reads ih rfl
  | paren _ ih => exact paren_reads ih
  | list _ ih => exact list_reads ih
  | map _ ih => exact map_reads ih
  | item _ ih => exact item_reads ih
  | comma _ h he hes => exact comma_reads he hes h.begins
  | noArguments => exact noArguments_reads
  | @someArguments es us h ih =>
    rw [← us.append_nil]
    exact arguments_reads ih h.begins (.inl rfl)
  | argumentsComma h ih => exact arguments_reads ih h.begins (.inr rfl)
  | pair hs _ ih => exact pair_reads hs ih
  | pairsComma hs _ h he hps => exact pairsComma_reads hs he hps h.begins
  | noEntries => exact noEntries_reads
  | @someEntries es us h ih =>
    rw [← us.append_nil]
    exact entries_reads ih h.begins (.inl rfl)
  | entriesComma h ih => exact entries_reads ih h.begins (.inr rfl)

/-- With room for a level a token nothing is too deep. -/
theorem expression_of_derives {ts rest : Tokens} {us : List Token} {e : Expr} {fuel room : Nat}
    (h : Derives (.expression e) us) (hs : Spans us ts rest) (hr : peek rest = .ending)
    (hf : fuelFor ts ≤ fuel) (hroom : us.length ≤ room) :
    expression fuel room ts = .ok (e, rest) := by
  have hfuel : 16 * ts.length + 14 ≤ fuel := by
    unfold fuelFor at hf
    omega
  rcases derives_reads h hs hfuel (by rw [hr]; decide) with hx | ⟨_, hshort⟩
  · exact hx
  · omega

/-- What is accepted derives in the grammar, what derives is accepted unless the tree gets too deep,
as one of at most as many tokens as there are levels does not, and no sequence of tokens stands for
two trees. -/
theorem parse_follows_grammar (ts : Tokens) (e : Expr) :
    (parse ts = .ok e → Derives (.expression e) (sentence ts)) ∧
    (Derives (.expression e) (sentence ts) →
      parse ts = .ok e ∨ parse ts = .error (.error .tooDeep) ∧ maxDepth < (sentence ts).length) ∧
    (Derives (.expression e) (sentence ts) →
      ∀ d, Derives (.expression d) (sentence ts) → d = e) := by
  obtain ⟨last, hs, hlast⟩ := spans_sentence ts
  refine ⟨derives_of_parse, fun h => ?_, fun he d hd => ?_⟩
  · have hfuel : 16 * ts.length + 14 ≤ fuelFor ts := by
      unfold fuelFor
      omega
    rcases derives_reads h hs hfuel (by rw [hlast]; decide) with hx | ⟨hx, hshort⟩
    · refine .inl (bind_eq_ok.mpr ⟨_, hx, ?_⟩)
      exact if_pos hlast
    · exact .inr ⟨bind_eq_error.mpr (.inl hx), hshort⟩
  · -- with room enough both trees are what the parser makes of the same tokens
    have hx := expression_of_derives he hs hlast le_rfl le_rfl
    have hy := expression_of_derives hd hs hlast le_rfl le_rfl
    cases hx.symm.trans hy
    rfl

/-- A product binds closer than a sum, and a list may end in a comma. -/
theorem parse_follows_grammar_sum :
    let ts := tokens "has(a.b,) ? -1 + 2 * 3 : x in [y,]"
    let sum := Expr.binary .add (.unary .negate (.int 1)) (.binary .multiply (.int 2) (.int 3))
    let e := Expr.conditional (.has (.variable "a") "b") sum
      (.binary .isIn (.variable "x") (.list [.variable "y"]))
    parse ts = .ok e ∧ Derives (.expression e) (sentence ts) ∧
      ∀ d, Derives (.expression d) (sentence ts) → d = e := by
  intro ts sum e
  have h : parse ts = .ok e := by
    unfold ts e sum
    cbv
  obtain ⟨hderives, _, hunique⟩ := parse_follows_grammar ts e
  exact ⟨h, hderives h, hunique (hderives h)⟩

end Parser

end EventStream
