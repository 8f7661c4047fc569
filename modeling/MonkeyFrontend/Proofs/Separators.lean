import MonkeyFrontend.Proofs.SingleToken
import MonkeyFrontend.Proofs.Refinement

/-!
# Blanks between tokens

A token is read by looking at what follows it, since a word, a number or an equals sign may go on
there. Nothing goes on at a blank. So whatever stands in front of a blank is read as it is
read alone, and with blanks in between the tokens of two texts are those of the one and
then those of the other.

The texts of a source's tokens can therefore be spaced out with any blanks (`Spaced`) and have the
same tokens again. The reader of programs sees nothing of a source but its tokens, so it makes
the same of both.

## Main results

* `Token.list_append_of_blanks` — texts can be split at blanks.
* `Spaced.ofSource_eq` — the tokens of texts that are spaced out.
* `blanks_separate` — blanks separate tokens, and it does not matter which ones do.
-/

namespace MonkeyFrontend

/-- No lexeme goes on with a blank. -/
theorem Kind.not_goesOn_of_blank {c : Char} (h : IsBlankCharacter c) (kind : Kind) :
    ¬ kind.GoesOn c := by
  cases kind <;>
    simp [Kind.GoesOn, h.not_isWordCharacter, h.not_isNumberCharacter, h.ne_point, h.ne_equals]

namespace Token

/-- What begins in front of a blank is read the same with any text from the blank on. -/
theorem readFrom_append_of_blank {c b : Char} (hc : ¬ IsBlankCharacter c)
    (hb : IsBlankCharacter b) (rest more : List Char) :
    readFrom c (rest ++ b :: more) = ((readFrom c rest).1, (readFrom c rest).2 ++ b :: more) := by
  by_cases hnil : (readFrom c rest).2 = []
  · -- The token takes all of its text, so it could only go on behind it.
    have hwhole := readFrom_append c rest
    rw [hnil, List.append_nil] at hwhole
    rcases lexeme_readFrom c rest with hlexeme | hillegal
    · rw [hwhole] at hlexeme
      rw [hlexeme.readFrom_append, ← hwhole, String.ofList_toList, hnil]
      · rfl
      · intro next hnext
        obtain rfl : b = next := Option.some.inj hnext
        exact Kind.not_goesOn_of_blank hb _
    · have hstray := isStrayCharacter_of_readFrom hc (by rw [hillegal])
      rw [readFrom_of_isStrayCharacter hstray, readFrom_of_isStrayCharacter hstray]
  · exact readFrom_append_of_ne_nil hnil

/-- A text can be split at blanks: the tokens of the two parts are the tokens of the whole. -/
theorem list_append_of_blanks {blanks : List Char} (hne : blanks ≠ [])
    (h : ∀ c ∈ blanks, IsBlankCharacter c) (first second : List Char) :
    list (first ++ (blanks ++ second)) = list first ++ list second := by
  have hdrop : blanks.dropWhile isBlank = [] := by
    rw [← List.append_nil blanks,
      List.dropWhile_append_of_pos fun c hc => isBlank_eq_true_iff.mpr (h c hc), List.dropWhile_nil]
  have hsecond : list (blanks ++ second) = list second := list_append_of_blank hdrop
  obtain ⟨b, others, rfl⟩ := List.exists_cons_of_ne_nil hne
  rw [← hsecond]
  induction hsize : first.length using Nat.strongRecOn generalizing first with
  | ind size ih =>
      cases hfirst : first.dropWhile isBlank with
      | nil => rw [list_append_of_blank hfirst, list_of_dropWhile_eq_nil hfirst, List.nil_append]
      | cons c rest =>
          have hshort : (readFrom c rest).2.length < first.length :=
            next?_length (by rw [next?, hfirst])
          exact list_append_of_readFrom hfirst
            (readFrom_append_of_blank (not_isBlankCharacter_of_dropWhile hfirst)
              (h b List.mem_cons_self) rest (others ++ second))
            (ih _ (hsize ▸ hshort) _ rfl)

end Token

/-! ## Texts that are spaced out -/

/-- Texts in a row, with blanks between any two of them, make up a text. -/
inductive Spaced : List String → String → Prop
  | none : Spaced [] ""
  | one (text : String) : Spaced [text] text
  | more {first second blanks spaced : String} {rest : List String} :
    blanks ≠ "" → (∀ c ∈ blanks.toList, IsBlankCharacter c) → Spaced (second :: rest) spaced →
      Spaced (first :: second :: rest) (first ++ blanks ++ spaced)

namespace Token

/-- Sources can be split at blanks. -/
theorem ofSource_append_of_blanks {blanks : String} (hne : blanks ≠ "")
    (h : ∀ c ∈ blanks.toList, IsBlankCharacter c) (first second : String) :
    ofSource (first ++ blanks ++ second) = ofSource first ++ ofSource second := by
  have hne : blanks.toList ≠ [] := fun hnil => hne (String.toList_eq_nil_iff.mp hnil)
  unfold ofSource
  rw [String.toList_append, String.toList_append, List.append_assoc]
  exact list_append_of_blanks hne h _ _

end Token

/-- The tokens of texts that are spaced out are the tokens of the one text after the other. -/
theorem Spaced.ofSource_eq {texts : List String} {spaced : String} (h : Spaced texts spaced) :
    Token.ofSource spaced = texts.flatMap Token.ofSource := by
  induction h with
  | none => exact Token.list_nil
  | one text => rw [List.flatMap_cons, List.flatMap_nil, List.append_nil]
  | more hne hblanks _ ih =>
      rw [Token.ofSource_append_of_blanks hne hblanks, ih]
      rfl

/-- Tokens that are the only ones of their texts are given again by these texts. -/
theorem flatMap_ofSource_literal {tokens : List Token}
    (h : ∀ token ∈ tokens, Token.ofSource token.literal = [token]) :
    (tokens.map Token.literal).flatMap Token.ofSource = tokens := by
  induction tokens with
  | nil => rfl
  | cons token rest ih =>
      obtain ⟨htoken, hrest⟩ := List.forall_mem_cons.mp h
      rw [List.map_cons, List.flatMap_cons, htoken, ih hrest, List.singleton_append]

/-- With blanks between them the tokens of two texts are those of the one, without the end of
the input, and then those of the other. So if the texts of all tokens of a source are spaced
out, they have the same tokens again, and the same program and diagnostics are read. -/
theorem blanks_separate :
    (∀ first blanks second : String, blanks ≠ "" → (∀ c ∈ blanks.toList, IsBlankCharacter c) →
      (Scanner.ofSource (first ++ blanks ++ second)).tokenize.1 =
        (Scanner.ofSource first).tokenize.1.dropLast ++ (Scanner.ofSource second).tokenize.1) ∧
    ∀ source spaced : String,
      Spaced ((Scanner.ofSource source).tokenize.1.map Token.literal) spaced →
        (Scanner.ofSource spaced).tokenize.1 = (Scanner.ofSource source).tokenize.1 ∧
          parse spaced = parse source := by
  have htokenize : ∀ source, (Scanner.ofSource source).tokenize.1 =
      Token.ofSource source ++ [Token.endOfInput] := fun _ => rfl
  constructor
  · intro first blanks second hne hblanks
    rw [htokenize, htokenize, htokenize, List.dropLast_concat,
      Token.ofSource_append_of_blanks hne hblanks, List.append_assoc]
  · intro source spaced hspaced
    have htokens : Token.ofSource spaced = Token.ofSource source := by
      rw [hspaced.ofSource_eq, htokenize, List.map_append, List.flatMap_append,
        flatMap_ofSource_literal fun _ hmem => Token.ofSource_literal hmem]
      show Token.ofSource source ++ (Token.list [] ++ []) = _
      rw [Token.list_nil, List.append_nil, List.append_nil]
    have hcursor : Cursor.ofSource spaced = Cursor.ofSource source :=
      congrArg Cursor.ofTokens htokens
    refine ⟨by rw [htokenize, htokenize, htokens], ?_⟩
    rw [parse_eq, parse_eq, hcursor]

/-- Equals signs with blanks between them are not read as one sign, and a comparison may be spread
over several lines. -/
theorem blanks_separate_between_signs :
    ("\t\n" ≠ "" ∧ (∀ c ∈ "\t\n".toList, IsBlankCharacter c) ∧
      (Scanner.ofSource "x=\t\n=1").tokenize.1 =
        (Scanner.ofSource "x=").tokenize.1.dropLast ++ (Scanner.ofSource "=1").tokenize.1) ∧
    Spaced ((Scanner.ofSource "x==1.5").tokenize.1.map Token.literal) "x\n== 1.5\r\n" ∧
      parse "x\n== 1.5\r\n" = parse "x==1.5" := by
  have hblanks : ∀ c ∈ "\t\n".toList, IsBlankCharacter c :=
    forall_isBlankCharacter_of_all (by decide +kernel)
  have hliterals : (Scanner.ofSource "x==1.5").tokenize.1.map Token.literal =
      ["x", "==", "1.5", ""] := by decide +kernel
  have htext : "x\n== 1.5\r\n" = "x" ++ "\n" ++ ("==" ++ " " ++ ("1.5" ++ "\r\n" ++ "")) := by
    decide +kernel
  have hspaced : Spaced ((Scanner.ofSource "x==1.5").tokenize.1.map Token.literal)
      "x\n== 1.5\r\n" := by
    rw [hliterals, htext]
    exact .more (by decide) (forall_isBlankCharacter_of_all (by decide +kernel))
      (.more (by decide) (forall_isBlankCharacter_of_all (by decide +kernel))
        (.more (by decide) (forall_isBlankCharacter_of_all (by decide +kernel)) (.one "")))
  exact ⟨⟨by decide, hblanks, blanks_separate.1 "x=" "\t\n" "=1" (by decide) hblanks⟩,
    hspaced, (blanks_separate.2 _ _ hspaced).2⟩

end MonkeyFrontend
