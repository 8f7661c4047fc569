import MonkeyFrontend.Proofs.SourceToken

/-!
# Tokens of two texts in a row

The tokens of two texts that are joined are not always the tokens of the one and
then those of the other: the last token of the first text may go on in the second
one. A token can only do that if it reaches to the end of its text. So every token
that is followed by something is read the same (`Token.readFrom_append_of_ne_nil`), and
a semicolon, which never goes on, is read the same anyway.

## Main results

* `Token.list_append_of_semicolon` — texts can be split behind a semicolon.
-/

namespace MonkeyFrontend

/-! ## Runs of characters that end inside a text -/

theorem takeWhile_append_of_ne_nil {p : Char → Bool} {text more : List Char}
    (h : text.dropWhile p ≠ []) : (text ++ more).takeWhile p = text.takeWhile p := by
  rw [List.takeWhile_append, if_neg]
  intro hlength
  have hwhole : text.takeWhile p ++ text.dropWhile p = text := List.takeWhile_append_dropWhile
  have hsum := congrArg List.length hwhole
  rw [List.length_append] at hsum
  exact h (List.eq_nil_of_length_eq_zero (by omega))

theorem dropWhile_append_of_ne_nil {p : Char → Bool} {text more : List Char}
    (h : text.dropWhile p ≠ []) : (text ++ more).dropWhile p = text.dropWhile p ++ more := by
  rw [List.dropWhile_append, if_neg]
  rw [List.isEmpty_iff]
  exact h

theorem splitWord_append_of_ne_nil {text more : List Char} (h : (splitWord text).2 ≠ []) :
    splitWord (text ++ more) = ((splitWord text).1, (splitWord text).2 ++ more) := by
  unfold splitWord
  rw [takeWhile_append_of_ne_nil h, dropWhile_append_of_ne_nil h]

theorem splitNumber_append_of_ne_nil {text more : List Char} (h : (splitNumber text).2 ≠ []) :
    splitNumber (text ++ more) = ((splitNumber text).1, (splitNumber text).2 ++ more) := by
  have hdigits : text.dropWhile isDigit ≠ [] := by
    intro hnil
    unfold splitNumber at h
    rw [hnil] at h
    exact h rfl
  have htake : (text ++ more).takeWhile isDigit = text.takeWhile isDigit :=
    takeWhile_append_of_ne_nil hdigits
  have hdrop : (text ++ more).dropWhile isDigit = text.dropWhile isDigit ++ more :=
    dropWhile_append_of_ne_nil hdigits
  unfold splitNumber at h ⊢
  rw [htake, hdrop]
  cases hrest : text.dropWhile isDigit with
  | nil => exact absurd hrest hdigits
  | cons c rest =>
      rw [hrest] at h
      by_cases hpoint : c = '.'
      · subst hpoint
        have hfraction : rest.dropWhile isDigit ≠ [] := h
        simp only [List.cons_append]
        rw [takeWhile_append_of_ne_nil hfraction, dropWhile_append_of_ne_nil hfraction]
      · simp [hpoint]

namespace Token

/-! ## One token -/

/-- Apart from the two operators of two characters, what is read begins with a symbol,
is a word or a number, or is a single character. -/
theorem readFrom_eq_of_not_pair {c : Char} {rest : List Char}
    (h : ¬ ((c = '=' ∨ c = '!') ∧ rest.head? = some '=')) :
    readFrom c rest =
      match Kind.ofSymbol? c with
      | some kind => (⟨kind, c.toString⟩, rest)
      | none =>
        if isLetter c then
          (⟨Kind.ofWord (String.ofList (splitWord (c :: rest)).1),
            String.ofList (splitWord (c :: rest)).1⟩, (splitWord (c :: rest)).2)
        else if isDigit c then
          (⟨.number, String.ofList (splitNumber (c :: rest)).1⟩, (splitNumber (c :: rest)).2)
        else
          (⟨.illegal, c.toString⟩, rest) := by
  unfold readFrom
  split
  · exact absurd ⟨.inl rfl, rfl⟩ h
  · exact absurd ⟨.inr rfl, rfl⟩ h
  · rfl

/-- A token that is followed by something is read the same with more text behind. -/
theorem readFrom_append_of_ne_nil {c : Char} {rest more : List Char}
    (h : (readFrom c rest).2 ≠ []) :
    readFrom c (rest ++ more) = ((readFrom c rest).1, (readFrom c rest).2 ++ more) := by
  have hne : rest ≠ [] := by
    rintro rfl
    exact h (List.eq_nil_of_length_eq_zero (Nat.le_zero.mp (readFrom_length c [])))
  obtain ⟨d, tail, rfl⟩ := List.exists_cons_of_ne_nil hne
  by_cases hpair : (c = '=' ∨ c = '!') ∧ (d :: tail).head? = some '='
  · obtain ⟨hc, hd⟩ := hpair
    obtain rfl := Option.some.inj hd
    rcases hc with rfl | rfl <;> rfl
  · have hpair' : ¬ ((c = '=' ∨ c = '!') ∧ (d :: tail ++ more).head? = some '=') := hpair
    rw [readFrom_eq_of_not_pair hpair] at h ⊢
    rw [readFrom_eq_of_not_pair hpair']
    split
    · rfl
    next hnone =>
      rw [hnone] at h
      by_cases hletter : isLetter c = true
      · simp only [if_pos hletter] at h ⊢
        rw [← List.cons_append, splitWord_append_of_ne_nil h]
      · by_cases hdigit : isDigit c = true
        · simp only [if_neg hletter, if_pos hdigit] at h ⊢
          rw [← List.cons_append, splitNumber_append_of_ne_nil h]
        · simp only [if_neg hletter, if_neg hdigit]

theorem readFrom_semicolon (rest : List Char) :
    readFrom ';' rest = (⟨.semicolon, ";"⟩, rest) := by
  rw [readFrom_eq_of_not_pair (by simp)]
  rfl

/-- Only the character for it is read as a semicolon. -/
theorem eq_of_readFrom_semicolon {c : Char} {rest : List Char}
    (h : (readFrom c rest).1.kind = .semicolon) : c = ';' := by
  unfold readFrom at h
  split at h
  · cases h
  · cases h
  · split at h
    next kind hkind =>
      rw [show kind = .semicolon from h] at hkind
      unfold Kind.ofSymbol? at hkind
      split at hkind <;> first | rfl | cases hkind
    next =>
      split at h
      · exact absurd h (ofWord_ne (by decide) (by decide) _)
      · split at h <;> cases h

/-! ## All tokens -/

theorem list_of_dropWhile_eq_nil {text : List Char} (h : text.dropWhile isBlank = []) :
    list text = [] := by
  rw [list_eq, next?, h]

theorem list_of_dropWhile_eq_cons {text rest : List Char} {c : Char}
    (h : text.dropWhile isBlank = c :: rest) :
    list text = (readFrom c rest).1 :: list (readFrom c rest).2 := by
  rw [list_eq, next?, h]

/-- Blanks in front of a text have no influence on its tokens. -/
theorem list_append_of_blank {blanks text : List Char} (h : blanks.dropWhile isBlank = []) :
    list (blanks ++ text) = list text := by
  have hdrop : (blanks ++ text).dropWhile isBlank = text.dropWhile isBlank := by
    rw [List.dropWhile_append, if_pos (List.isEmpty_iff.mpr h)]
  rw [list_eq, list_eq text, next?, next?, hdrop]

theorem dropWhile_eq_nil_of_list_eq_nil {text : List Char} (h : list text = []) :
    text.dropWhile isBlank = [] := by
  cases hdrop : text.dropWhile isBlank with
  | nil => rfl
  | cons c rest =>
      rw [list_of_dropWhile_eq_cons hdrop] at h
      cases h

/-- A text can be split behind its first token if that is read the same, and what is
left of the text behind it can be split. -/
theorem list_append_of_readFrom {text rest more : List Char} {c : Char}
    (hdrop : text.dropWhile isBlank = c :: rest)
    (hread : readFrom c (rest ++ more) = ((readFrom c rest).1, (readFrom c rest).2 ++ more))
    (hsplit : list ((readFrom c rest).2 ++ more) = list (readFrom c rest).2 ++ list more) :
    list (text ++ more) = list text ++ list more := by
  have hmore : (text ++ more).dropWhile isBlank = c :: (rest ++ more) := by
    rw [dropWhile_append_of_ne_nil (by rw [hdrop]; exact List.cons_ne_nil c rest), hdrop]
    rfl
  rw [list_of_dropWhile_eq_cons hmore, hread, hsplit, list_of_dropWhile_eq_cons hdrop]
  rfl

/-- A text can be split behind a semicolon: the tokens of the two parts are the tokens of
the whole. -/
theorem list_append_of_semicolon {text : List Char} {before : List Token} {last : Token}
    (h : list text = before ++ [last]) (hlast : last.kind = .semicolon) (more : List Char) :
    list (text ++ more) = list text ++ list more := by
  induction hsize : text.length using Nat.strongRecOn generalizing text before with
  | ind size ih =>
      cases hdrop : text.dropWhile isBlank with
      | nil =>
          rw [list_of_dropWhile_eq_nil hdrop] at h
          simp at h
      | cons c rest =>
          rw [list_of_dropWhile_eq_cons hdrop] at h
          cases before with
          | nil =>
              obtain ⟨hfirst, hnil⟩ := List.cons_eq_cons.mp h
              -- The semicolon is the last token, so only blanks are left behind it.
              have hc := eq_of_readFrom_semicolon (hfirst ▸ hlast)
              subst hc
              apply list_append_of_readFrom hdrop
              · rw [readFrom_semicolon, readFrom_semicolon]
              · rw [list_append_of_blank (dropWhile_eq_nil_of_list_eq_nil hnil), hnil]
                rfl
          | cons first before =>
              obtain ⟨_, htail⟩ := List.cons_eq_cons.mp h
              have hne : (readFrom c rest).2 ≠ [] := by
                intro hnil
                rw [hnil, list_of_dropWhile_eq_nil rfl] at htail
                simp at htail
              have hshort : (readFrom c rest).2.length < text.length :=
                next?_length (by rw [next?, hdrop])
              exact list_append_of_readFrom hdrop (readFrom_append_of_ne_nil hne)
                (ih _ (hsize ▸ hshort) htail rfl)

end Token

end MonkeyFrontend
