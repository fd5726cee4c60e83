import Ostinato.Proofs.Yaml.Token
import Ostinato.Yaml.Token.Lexer

/-!
# Why the next token cannot be had

The lexer goes through a text and never leaves it. So where a token is no value, the text has a
number in it that is too large to be read.
-/

namespace Ostinato.Yaml

/-- A number of an escape or of a version that is too large to be read. -/
def HasLargeNumber (chars : List Char) : Prop := HasFarEscape chars ∨ HasLongVersion chars

namespace Lexer

variable {chars : List Char} {l l' : Lexer} {bad : Prop}

/-! ## The place of a lexer -/

/-- A lexer in a text, which does not break off for a scalar. -/
structure Within (chars : List Char) (l : Lexer) : Prop where
  rest : l.cursor.rest <:+ chars
  fault : ∀ fault, l.fault = some fault → fault.IsNoScalar

/-- Two lexers at one place of one text. -/
structure SamePlace (l l' : Lexer) : Prop where
  cursor : l'.cursor = l.cursor
  fault : l'.fault = l.fault

/-- What stands in the same place is within the same text. -/
theorem Within.of_samePlace (h : l.Within chars) (hsame : l.SamePlace l') : l'.Within chars :=
  ⟨hsame.cursor ▸ h.rest, hsame.fault ▸ h.fault⟩

/-- Every lexer stands in its own place. -/
theorem SamePlace.refl (l : Lexer) : l.SamePlace l := ⟨rfl, rfl⟩

/-- Only the place counts. -/
theorem SamePlace.congr {l₀ : Lexer} (h : l.SamePlace l') (hcursor : l.cursor = l₀.cursor)
    (hfault : l.fault = l₀.fault) : l₀.SamePlace l' :=
  ⟨h.cursor.trans hcursor, h.fault.trans hfault⟩

/-- Places that are the same in two steps are the same. -/
theorem SamePlace.trans {l'' : Lexer} (h : l.SamePlace l') (h' : l'.SamePlace l'') :
    l.SamePlace l'' :=
  ⟨h'.cursor.trans h.cursor, h'.fault.trans h.fault⟩

/-- What is left after a skip is a suffix of what was there. -/
theorem suffix_skip (n : Nat) (cursor : Cursor) : (cursor.skip n).rest <:+ cursor.rest := by
  fun_induction Cursor.skip n cursor with
  | case1 n c cs p ih => exact ih.trans (List.suffix_cons _ _)
  | case2 n cursor => exact List.suffix_refl _

/-- A skip stays within the text. -/
theorem Within.skip (h : l.Within chars) (n : Nat) : (l.skip n).Within chars :=
  ⟨(suffix_skip n _).trans h.rest, h.fault⟩

/-- A new token changes no place. -/
theorem Within.push (h : l.Within chars) (t : Token) : (l.push t).Within chars :=
  h.of_samePlace ⟨rfl, rfl⟩

/-- A new indentation changes no place. -/
theorem Within.addIndent (h : l.Within chars) (column : Nat) : (l.addIndent column).Within chars :=
  h.of_samePlace ⟨rfl, rfl⟩

/-- A token more, and some characters further. -/
theorem Within.push_skip (h : l.Within chars) (t : Token) (n : Nat) :
    ((l.push t).skip n).Within chars :=
  (h.push t).skip n

/-! ## Simple keys and indentation -/

/-- To drop a key keeps the place. -/
theorem ends_dropKey (l : Lexer) : Ends l.SamePlace bad l.dropKey := by
  unfold dropKey
  split
  · exact trivial
  · exact ⟨rfl, rfl⟩

/-- To save a key keeps the place. -/
theorem ends_saveKey (l : Lexer) : Ends l.SamePlace bad l.saveKey := by
  unfold saveKey
  split
  · exact (ends_dropKey l).bind fun l' hl => hl.trans ⟨rfl, rfl⟩
  · exact SamePlace.refl l

/-- To refresh a key ends well. -/
theorem ends_refresh (l : Lexer) (place : Option KeyPlace) :
    Ends (fun _ => True) bad (l.refresh place) := by
  unfold refresh
  split
  · exact trivial
  split
  · exact trivial
  split
  · exact trivial
  · exact trivial

/-- To refresh all keys keeps the place. -/
theorem ends_refreshAll (l : Lexer) : Ends l.SamePlace bad l.refreshAll := by
  refine (ends_refresh l _).andThen fun _ => ?_
  exact (Ends.mapM fun place _ => ends_refresh l place).andThen fun _ => ⟨rfl, rfl⟩

/-- To unwind the given indentations keeps the place. -/
theorem samePlace_unwindFrom (column : Int) (outers : List Int) (l : Lexer) :
    l.SamePlace (unwindFrom column outers l) := by
  induction outers generalizing l with
  | nil => exact SamePlace.refl l
  | cons outer rest ih =>
    unfold unwindFrom
    split
    · exact (ih _).congr rfl rfl
    · exact SamePlace.refl l

/-- To unwind the indentation keeps the place. -/
theorem samePlace_unwind (l : Lexer) (column : Int) : l.SamePlace (l.unwind column) := by
  unfold unwind
  split
  · exact SamePlace.refl l
  · exact samePlace_unwindFrom _ _ l

/-! ## Blanks -/

/-- A skip of characters of one kind stays within the text. -/
theorem Within.skipWhile (h : l.Within chars) (p : Char → Bool) :
    Within chars { l with cursor := l.cursor.skipWhile p } :=
  ⟨(suffix_skip _ _).trans h.rest, h.fault⟩

/-- A skip of blanks stays within the text. -/
theorem Within.skipBlanks (h : l.Within chars) (fuel : Nat) : (l.skipBlanks fuel).Within chars := by
  induction fuel generalizing l with
  | zero => exact h
  | succ fuel ih =>
    unfold Lexer.skipBlanks
    have hspaces := h.skipWhile (· = ' ')
    dsimp only
    split
    · have hcomment := hspaces.skipWhile (!isBreak ·)
      split
      · exact ih ((hcomment.skip 1).of_samePlace ⟨rfl, rfl⟩)
      · exact hcomment
    · split
      · exact ih ((hspaces.skip 1).of_samePlace ⟨rfl, rfl⟩)
      · exact hspaces

/-- The next token is within the text. -/
theorem Within.toNext (h : l.Within chars) : l.toNext.Within chars := by
  unfold Lexer.toNext
  dsimp only
  split
  · exact (h.skip 1).skipBlanks _
  · exact h.skipBlanks _

/-! ## One token -/

/-- The end of the text stays within it. -/
theorem ends_finish (h : l.Within chars) : Ends (Within chars) bad l.finish :=
  (ends_dropKey _).bind fun _ hl =>
    h.of_samePlace (((samePlace_unwind l _).trans hl).trans ⟨rfl, rfl⟩)

/-- The mark of a document stays within the text. -/
theorem ends_documentMark (h : l.Within chars) (t : Token) :
    Ends (Within chars) bad (l.documentMark t) :=
  (ends_dropKey _).bind fun _ hl =>
    ((h.of_samePlace ((samePlace_unwind l _).trans hl)).push_skip t 3).of_samePlace ⟨rfl, rfl⟩

/-- To open a flow collection stays within the text. -/
theorem ends_openFlow (h : l.Within chars) (t : Token) : Ends (Within chars) bad (l.openFlow t) :=
  (ends_saveKey l).bind fun _ hl =>
    ((h.of_samePlace hl).push_skip t 1).of_samePlace ⟨rfl, rfl⟩

/-- To close a flow collection stays within the text. -/
theorem ends_closeFlow (h : l.Within chars) (t : Token) :
    Ends (Within chars) bad (l.closeFlow t) := by
  refine (ends_dropKey l).bind fun l' hl => ?_
  split
  · exact trivial
  · exact ((h.of_samePlace hl).push_skip t 1).of_samePlace ⟨rfl, rfl⟩

/-- What is left to do where a key may start behind an indicator. -/
theorem ends_indicator (h : l.Within chars) (allowed : Bool) (t : Token) :
    Ends (Within chars) bad (do
      let l ← { l with keyAllowed := allowed }.dropKey
      return (l.push t).skip 1) :=
  (ends_dropKey _).bind fun _ hl => (h.of_samePlace (hl.congr rfl rfl)).push_skip t 1

/-- An entry of a flow collection stays within the text. -/
theorem ends_flowEntry (h : l.Within chars) : Ends (Within chars) bad l.flowEntry :=
  ends_indicator h true .flowEntry

/-- An indicator may open a block in front of itself. -/
theorem ends_opening (h : l.Within chars) (column : Nat) (t : Token) (reason : String)
    {next : Lexer → Except Fault Lexer}
    (hnext : ∀ l' : Lexer, l'.Within chars → Ends (Within chars) bad (next l')) :
    Ends (Within chars) bad
      (if l.inFlow then pure l >>= next
      else if !l.keyAllowed then refuse reason >>= next
      else if l.opensBlock column then pure ((l.addIndent column).push t) >>= next
      else pure l >>= next) :=
  Ends.ite (fun _ => hnext l h) fun _ => Ends.ite (fun _ => trivial) fun _ =>
    Ends.ite (fun _ => hnext _ ((h.addIndent column).push t)) fun _ => hnext l h

/-- An entry of a block sequence stays within the text. -/
theorem ends_blockEntry (h : l.Within chars) : Ends (Within chars) bad l.blockEntry :=
  ends_opening h _ _ _ fun _ hl => ends_indicator hl true .blockEntry

/-- The mark of a key stays within the text. -/
theorem ends_explicitKey (h : l.Within chars) : Ends (Within chars) bad l.explicitKey :=
  ends_opening h _ _ _ fun _ hl => ends_indicator hl _ .key

/-- The mark of a value stays within the text. -/
theorem ends_valueMark (h : l.Within chars) : Ends (Within chars) bad l.valueMark := by
  unfold valueMark
  split
  next k _ =>
    have hkey : Within chars
        { l.pushAt k.tokens .key with keyPlace := none, keyAllowed := false } :=
      h.of_samePlace ⟨rfl, rfl⟩
    dsimp only
    split
    · refine Within.push_skip (Within.of_samePlace hkey ?_) .value 1
      exact ⟨rfl, rfl⟩
    · exact hkey.push_skip .value 1
  · exact ends_opening h _ _ _ fun _ hl => ends_indicator hl _ .value

/-- A directive stays within the text, and fails as a scalar only for a large number. -/
theorem ends_directive (h : l.Within chars) (hpercent : l.cursor.rest.head? = some '%') :
    Ends (Within chars) (HasLargeNumber chars) l.directive := by
  refine (ends_dropKey _).bind fun l' hl => ?_
  have hsame := (samePlace_unwind l (-1)).trans hl
  -- the directive is lexed behind its percent sign
  have hrest : '%' :: l'.cursor.rest.drop 1 = l.cursor.rest := by
    rw [hsame.cursor]
    obtain ⟨after, hafter⟩ := List.head?_eq_some_iff.mp hpercent
    rw [hafter]
    rfl
  have hlex := ends_lexDirective (l'.cursor.rest.drop 1)
  rw [hrest] at hlex
  refine (hlex.because fun hlong => ?_).andThen fun r => ?_
  · exact Or.inr (hlong.mono h.rest.isInfix)
  · exact ((h.of_samePlace hsame).push_skip _ _).of_samePlace ⟨rfl, rfl⟩

/-- A token that may start a key stays within the text, if it can be read. -/
theorem ends_keyStart (h : l.Within chars) (n : Nat)
    {lex : List Char → Except Fault (Token × Nat)}
    (hlex : ∀ cs, cs <:+ chars → Ends (fun _ => True) bad (lex cs)) :
    Ends (Within chars) bad (l.keyStart n lex) := by
  refine (ends_saveKey l).bind fun l' hl => ?_
  have hwithin := h.of_samePlace hl
  refine (hlex _ ((List.drop_suffix _ _).trans hwithin.rest)).andThen fun r => ?_
  exact (hwithin.push_skip _ _).of_samePlace ⟨rfl, rfl⟩

/-- A block scalar stays within the text. -/
theorem ends_blockScalar (h : l.Within chars) (folded : Bool) :
    Ends (Within chars) bad (l.blockScalar folded) := by
  refine (ends_dropKey _).bind fun l' hl => ?_
  refine (ends_lexBlock _ _ _ _).andThen fun r => ?_
  exact (h.of_samePlace (hl.congr rfl rfl)).push_skip _ _

/-- A plain scalar stays within the text. -/
theorem ends_plainScalar (h : l.Within chars) : Ends (Within chars) bad l.plainScalar :=
  (ends_saveKey l).bind fun _ hl => ((h.of_samePlace hl).push_skip _ _).of_samePlace ⟨rfl, rfl⟩

/-- A token that is no value is one for a number that is too large. -/
theorem ends_token (h : l.Within chars) :
    Ends (Within chars) (HasLargeNumber chars) l.token := by
  have hunwound := h.of_samePlace (samePlace_unwind l l.cursor.position.column)
  unfold token
  dsimp only
  generalize l.unwind l.cursor.position.column = u at hunwound ⊢
  cases hrest : u.cursor.rest with
  | nil => exact ends_finish hunwound
  | cons c after =>
    refine Ends.ite (fun hpercent => ends_directive hunwound ?_) fun _ => ?_
    · rw [hrest, hpercent.1]
      rfl
    refine Ends.ite (fun _ => ends_documentMark hunwound _) fun _ => ?_
    refine Ends.ite (fun _ => ends_documentMark hunwound _) fun _ => ?_
    refine Ends.ite (fun _ => ends_openFlow hunwound _) fun _ => ?_
    refine Ends.ite (fun _ => ends_openFlow hunwound _) fun _ => ?_
    refine Ends.ite (fun _ => ends_closeFlow hunwound _) fun _ => ?_
    refine Ends.ite (fun _ => ends_closeFlow hunwound _) fun _ => ?_
    refine Ends.ite (fun _ => ends_flowEntry hunwound) fun _ => ?_
    refine Ends.ite (fun _ => ends_blockEntry hunwound) fun _ => ?_
    refine Ends.ite (fun _ => ends_explicitKey hunwound) fun _ => ?_
    refine Ends.ite (fun _ => ends_valueMark hunwound) fun _ => ?_
    refine Ends.ite (fun _ => ends_keyStart hunwound 1 fun _ _ => (ends_lexName _).map) fun _ => ?_
    refine Ends.ite (fun _ => ends_keyStart hunwound 1 fun _ _ => (ends_lexName _).map) fun _ => ?_
    refine Ends.ite (fun _ => ends_keyStart hunwound 0 fun _ _ => ends_lexTag _) fun _ => ?_
    refine Ends.ite (fun _ => ends_blockScalar hunwound false) fun _ => ?_
    refine Ends.ite (fun _ => ends_blockScalar hunwound true) fun _ => ?_
    refine Ends.ite (fun _ => ends_keyStart hunwound 1 fun cs hcs => ?_) fun _ => ?_
    · exact (ends_lexQuoted _ _ cs).because fun hfar => Or.inl (hfar.mono hcs.isInfix)
    exact Ends.ite (fun _ => ends_plainScalar hunwound) fun _ => trivial

/-! ## Tokens until the next one is certain -/

/-- A step of the lexer stays within the text, and fails as a scalar only for a large number. -/
theorem ends_step (h : l.Within chars) : Ends (Within chars) (HasLargeNumber chars) l.step := by
  unfold step
  dsimp only
  split
  · exact (ends_refreshAll _).bind fun _ hl => ends_token (h.toNext.of_samePlace hl)
  next fault hfault =>
    -- the text breaks off: the fault is the text's own, or that of a token in front of the break
    have hbroken : fault.IsNoScalar := h.toNext.fault fault hfault
    split
    · exact Ends.error hbroken
    refine (ends_refreshAll _).bind fun l' hl => ?_
    split
    · exact Ends.error hbroken
    have htoken := ends_token (h.toNext.of_samePlace hl)
    split
    next next hnext =>
      split
      · exact Ends.error hbroken
      · exact htoken.result hnext
    · exact Ends.error hbroken
    next e _ he =>
      rw [he] at htoken
      exact htoken.mono (fun _ h => h) id

/-- Steps of the lexer stay within the text, and fail as a scalar only for a large number. -/
theorem ends_fillFor (h : l.Within chars) (fuel : Nat) :
    Ends (Within chars) (HasLargeNumber chars) (l.fillFor fuel) := by
  induction fuel generalizing l with
  | zero => exact h
  | succ fuel ih =>
    -- the keys are looked at anew only if some tokens wait; either way the loop goes on alike
    have hfresh : ∀ l' : Lexer, l'.Within chars →
        Ends (Within chars) (HasLargeNumber chars)
          (if l'.isCertain then pure l' else l'.step >>= fun next => fillFor fuel next) := by
      intro l' hl'
      split
      · exact hl'
      · exact (ends_step hl').bind fun next hnext => ih hnext
    unfold fillFor
    split
    · exact h
    dsimp only
    split
    · exact hfresh l h
    · exact (ends_refreshAll l).bind fun l' hl => hfresh l' (h.of_samePlace hl)

/-- The lexer stays within the text, and fails as a scalar only for a large number. -/
theorem ends_fill (h : l.Within chars) :
    Ends (Within chars) (HasLargeNumber chars) l.fill :=
  ends_fillFor h _

/-- To pass a token changes no place. -/
theorem Within.pass (h : l.Within chars) : l.pass.Within chars := h.of_samePlace ⟨rfl, rfl⟩

/-- The lexer starts within the text. -/
theorem within_start {source : Source}
    (hfault : ∀ fault, source.fault = some fault → fault.IsNoScalar) :
    (start source).Within source.chars :=
  ⟨List.suffix_refl _, hfault⟩

end Lexer

end Ostinato.Yaml
