import ReplicatedLedger.Json.Basic
import ReplicatedLedger.Proofs.Json.Lexing

/-!
The compact form of a value is read back as that value.  The argument goes through the tokens: those
of a value keep its words apart, and assembling them, whatever follows, completes the value.
-/

namespace ReplicatedLedger.Json

variable {frames : List Frame} {ts rest : List Token} {t : Token} {j : Json}

/-! ### The tokens of a value are kept apart -/

/-- Tokens kept apart from each other, and from a word before them. -/
def Separated (ts : List Token) : Prop :=
  ts.IsChain Token.Apart ∧ ∀ t ∈ ts.head?, t.isWord = false

theorem separated_cons (ht : t.isWord = false) (hts : ts.IsChain Token.Apart) :
    Separated (t :: ts) := by
  refine ⟨List.isChain_cons.2 ⟨fun _ _ hword => ?_, hts⟩, by simpa using ht⟩
  rw [ht] at hword
  cases hword

/-- Before what is kept apart from words, any token may stand. -/
theorem Separated.isChain_cons (h : Separated ts) : (t :: ts).IsChain Token.Apart :=
  List.isChain_cons.2 ⟨fun t' ht' _ => h.2 t' ht', h.1⟩

mutual

theorem isChain_tokens {rest : List Token} (j : Json) (h : Separated rest) :
    (j.tokens ++ rest).IsChain Token.Apart := by
  match j with
  | .null | .boolean _ | .natural _ | .number _ | .text _ =>
      rw [tokens]
      exact h.isChain_cons
  | .array [] | .object [] =>
      rw [tokens]
      exact (separated_cons rfl h.isChain_cons).1
  | .array (v :: vs) =>
      have hvs := separated_itemTokens vs (separated_cons (t := .closeArray) rfl h.1)
      rw [tokens, List.append_assoc, List.append_assoc]
      exact (separated_cons (t := .openArray) rfl (isChain_tokens v hvs)).1
  | .object ((k, v) :: ms) =>
      have hms := separated_memberTokens ms (separated_cons (t := .closeObject) rfl h.1)
      rw [tokens, List.append_assoc, List.append_assoc]
      have hv := separated_cons (t := .colon) rfl (isChain_tokens v hms)
      exact (separated_cons (t := .openObject) rfl hv.isChain_cons).1

theorem separated_itemTokens {rest : List Token} (vs : List Json) (h : Separated rest) :
    Separated (itemTokens vs ++ rest) := by
  match vs with
  | [] => exact h
  | v :: vs =>
      rw [itemTokens, List.append_assoc]
      exact separated_cons rfl (isChain_tokens v (separated_itemTokens vs h))

theorem separated_memberTokens {rest : List Token} (ms : List (Text × Json)) (h : Separated rest) :
    Separated (memberTokens ms ++ rest) := by
  match ms with
  | [] => exact h
  | (k, v) :: ms =>
      rw [memberTokens, List.append_assoc]
      have hv := separated_cons (t := .colon) rfl (isChain_tokens v (separated_memberTokens ms h))
      exact separated_cons (t := .comma) rfl (hv.isChain_cons (t := .text k))

end

/-! ### The tokens of a value are assembled to it -/

/-- No value begins with the end of an array. -/
theorem run_firstItem (j : Json) :
    (Assembly.firstItem frames).run (j.tokens ++ rest) =
      (Assembly.value (.array [] :: frames)).run (j.tokens ++ rest) := by
  cases j with
  | array vs => cases vs <;> rw [tokens] <;> rfl
  | object ms => cases ms <;> rw [tokens] <;> rfl
  | _ => rw [tokens]; rfl

mutual

theorem run_tokens {rest : List Token} (j : Json) (frames : List Frame) :
    (Assembly.value frames).run (j.tokens ++ rest) = (Assembly.complete j frames).run rest := by
  match j with
  | .null | .boolean _ | .natural _ | .number _ | .text _ | .array [] | .object [] =>
      rw [tokens]
      rfl
  | .array (v :: vs) =>
      rw [tokens, List.append_assoc, List.append_assoc]
      show (Assembly.firstItem frames).run (v.tokens ++ _) = _
      rw [run_firstItem, run_tokens v]
      exact run_itemTokens v [] vs
  | .object ((k, v) :: ms) =>
      rw [tokens, List.append_assoc, List.append_assoc]
      show (Assembly.value (.object [] k :: frames)).run (v.tokens ++ _) = _
      rw [run_tokens v]
      exact run_memberTokens k v [] ms

theorem run_itemTokens {frames : List Frame} {rest : List Token} (v : Json) (items vs : List Json) :
    (Assembly.complete v (.array items :: frames)).run (itemTokens vs ++ .closeArray :: rest) =
      (Assembly.complete (.array ((v :: items).reverse ++ vs)) frames).run rest := by
  match vs with
  | [] =>
      rw [itemTokens, List.append_nil]
      rfl
  | w :: vs =>
      rw [itemTokens, List.append_assoc]
      show (Assembly.value (.array (v :: items) :: frames)).run (w.tokens ++ _) = _
      rw [run_tokens w, run_itemTokens w (v :: items) vs, List.reverse_cons, List.append_assoc]
      rfl

theorem run_memberTokens {frames : List Frame} {rest : List Token} (k : Text) (v : Json)
    (members ms : List (Text × Json)) :
    (Assembly.complete v (.object members k :: frames)).run
        (memberTokens ms ++ .closeObject :: rest) =
      (Assembly.complete (.object (((k, v) :: members).reverse ++ ms)) frames).run rest := by
  match ms with
  | [] =>
      rw [memberTokens, List.append_nil]
      rfl
  | (l, w) :: ms =>
      rw [memberTokens, List.append_assoc]
      show (Assembly.value (.object ((k, v) :: members) l :: frames)).run (w.tokens ++ _) = _
      rw [run_tokens w, run_memberTokens l w ((k, v) :: members) ms, List.reverse_cons,
        List.append_assoc]
      rfl

end

/-! ### Values without foreign numbers -/

/-- All numbers in the value are natural numbers. -/
def Plain (j : Json) : Prop := ∀ lexeme, .number lexeme ∉ j.tokens

theorem parse?_compact (h : j.Plain) : parse? j.compact = some j := by
  have hnil : Separated [] := ⟨.nil, by simp⟩
  have hchain := isChain_tokens j hnil
  have hrun : (Assembly.value []).run (j.tokens ++ []) = _ := run_tokens j []
  rw [List.append_nil] at hchain hrun
  have hcs : j.compact.toList = spelling j.tokens := by
    unfold compact spelling
    rw [String.toList_join, List.flatMap_map]
  unfold parse?
  rw [hcs, lex_spelling h hchain]
  simp only [ofTokens?, hrun]
  rfl

theorem plain_natural (n : Nat) : (natural n).Plain := fun _ h => by simp [tokens] at h

theorem plain_string (s : String) : (string s).Plain := fun _ h => by simp [string, tokens] at h

theorem plain_null : null.Plain := fun _ h => by simp [tokens] at h

theorem mem_itemTokens {vs : List Json} (h : t ∈ itemTokens vs) :
    t = .comma ∨ ∃ v ∈ vs, t ∈ v.tokens := by
  induction vs with
  | nil => cases h
  | cons v vs ih =>
      rw [itemTokens, List.cons_append, List.mem_cons, List.mem_append] at h
      obtain rfl | h | h := h
      · exact .inl rfl
      · exact .inr ⟨v, List.mem_cons_self, h⟩
      · exact (ih h).imp_right fun ⟨w, hw, ht⟩ => ⟨w, List.mem_cons_of_mem _ hw, ht⟩

theorem plain_array {vs : List Json} (h : ∀ v ∈ vs, v.Plain) : (array vs).Plain := by
  intro lexeme hmem
  cases vs with
  | nil => simp [tokens] at hmem
  | cons v vs =>
      rw [List.forall_mem_cons] at h
      simp only [tokens, List.mem_append, List.mem_cons, reduceCtorEq, false_or, List.cons_append,
        List.not_mem_nil, or_false] at hmem
      obtain hv | hvs := hmem
      · exact h.1 lexeme hv
      · obtain h' | ⟨w, hw, hlexeme⟩ := mem_itemTokens hvs
        · cases h'
        · exact h.2 w hw lexeme hlexeme

theorem mem_memberTokens {ms : List (Text × Json)} (h : t ∈ memberTokens ms) :
    (t = .comma ∨ t = .colon ∨ ∃ k, t = .text k) ∨ ∃ m ∈ ms, t ∈ m.2.tokens := by
  induction ms with
  | nil => cases h
  | cons m ms ih =>
      rw [memberTokens] at h
      simp only [List.cons_append, List.mem_cons, List.mem_append] at h
      obtain rfl | rfl | rfl | h | h := h
      · exact .inl (.inl rfl)
      · exact .inl (.inr (.inr ⟨_, rfl⟩))
      · exact .inl (.inr (.inl rfl))
      · exact .inr ⟨m, List.mem_cons_self, h⟩
      · exact (ih h).imp_right fun ⟨w, hw, ht⟩ => ⟨w, List.mem_cons_of_mem _ hw, ht⟩

theorem plain_record {ms : List (String × Json)} (h : ∀ m ∈ ms, m.2.Plain) : (record ms).Plain := by
  intro lexeme hmem
  cases ms with
  | nil => simp [record, tokens] at hmem
  | cons m ms =>
      rw [List.forall_mem_cons] at h
      simp only [record, List.map_cons, tokens, List.mem_append, List.mem_cons, reduceCtorEq,
        false_or, List.cons_append, List.not_mem_nil, or_false] at hmem
      obtain hv | hvs := hmem
      · exact h.1 lexeme hv
      · obtain h' | ⟨w, hw, hlexeme⟩ := mem_memberTokens hvs
        · obtain h' | h' | ⟨k, h'⟩ := h' <;> cases h'
        · obtain ⟨m', hm', rfl⟩ := List.mem_map.1 hw
          exact h.2 m' hm' lexeme hlexeme

end ReplicatedLedger.Json
