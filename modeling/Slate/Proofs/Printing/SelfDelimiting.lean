import Slate.Outline
import Slate.Proofs.Token.Spelling

/-!
Outlines show where each of their parts ends. Margins only repeat how deep a line stands, so they
play no part in this: a comma, a line break or a closing parenthesis follows a part, and none of
them stands inside a name, a number or a sign. So the text of an outline is the beginning of the
text of no other one, and an outline can be told by its text.
-/

set_option autoImplicit false

namespace Slate

namespace Outline

/-- Characters of names, numbers and signs. -/
def isPlain (character : Char) : Bool :=
  character ∉ ['(', ')', ',', '\n']

def Plain (text : List Char) : Prop :=
  ∀ character ∈ text, isPlain character = true

/-- What may follow a part of an outline. -/
def Ends (rest : List Char) : Prop :=
  ∀ character ∈ rest.head?, character ∈ [')', ',', '\n']

/-- What may follow the last part. -/
def Closes (rest : List Char) : Prop :=
  ∃ character further, rest = character :: further ∧ character ∈ [')', '\n']

/-- Where two texts of the same kind of characters both stop, they are the same. -/
theorem append_injective
    {belongs : Char → Bool} {first second rest others : List Char}
    (inside : ∀ character ∈ first, belongs character = true)
    (insideToo : ∀ character ∈ second, belongs character = true)
    (stops : ∀ character ∈ rest.head?, belongs character = false)
    (stopsToo : ∀ character ∈ others.head?, belongs character = false)
    (same : first ++ rest = second ++ others) : first = second ∧ rest = others := by
  have sameFirst : first = second := by
    rw [← Token.takeWhile_append_of_stops inside stops, same,
      Token.takeWhile_append_of_stops insideToo stopsToo]
  subst sameFirst
  exact ⟨rfl, List.append_cancel_left same⟩

theorem Ends.stops {rest : List Char} (ends : Ends rest) :
    ∀ character ∈ rest.head?, isPlain character = false := by
  intro character isFirst
  have closing := ends character isFirst
  simp only [isPlain, decide_not, Bool.not_eq_false', decide_eq_true_eq]
  exact List.mem_cons_of_mem '(' closing

theorem Closes.ends {rest : List Char} (closes : Closes rest) : Ends rest := by
  obtain ⟨first, further, rfl, isClosing⟩ := closes
  rintro character ⟨⟩
  rcases List.mem_cons.1 isClosing with rfl | isBreak
  · exact List.mem_cons_self
  · exact List.mem_cons_of_mem _ (List.mem_cons_of_mem _ isBreak)

theorem Closes.ne_cons
    {rest further : List Char} {character : Char} (closes : Closes rest)
    (isOther : character ∉ [')', '\n']) : rest ≠ character :: further := by
  rintro rfl
  obtain ⟨_, _, ⟨⟩, isClosing⟩ := closes
  exact isOther isClosing

/-- A tag with a name or a number in parentheses behind it. -/
def Tagged (text : List Char) : Prop :=
  ∃ tag first body, text = tag ++ '(' :: first :: (body ++ [')']) ∧ Plain tag ∧
    Plain (first :: body)

/-- All leaves are in order, and so are all labels. -/
inductive Legible : Outline → Prop
  | sign {text : String} : Plain text.toList → Legible (.leaf text)
  | tagged {text : String} : Tagged text.toList → Legible (.leaf text)
  | node {label : String} {closesBelow : Bool} {parts : List Outline} :
      Plain label.toList → (∀ part ∈ parts, Legible part) → Legible (.node label closesBelow parts)

theorem Plain.not_newline {text : List Char} (plain : Plain text) : '\n' ∉ text :=
  fun member => nomatch plain '\n' member

theorem Tagged.not_newline {text : List Char} (tagged : Tagged text) : '\n' ∉ text := by
  obtain ⟨tag, first, body, rfl, tagPlain, bodyPlain⟩ := tagged
  have noBreak := bodyPlain.not_newline
  simp only [List.mem_cons, not_or] at noBreak
  simp [tagPlain.not_newline, noBreak]

theorem reflow_eq {newline text : String} (noBreak : '\n' ∉ text.toList) :
    reflow newline text = text := by
  have unchanged (characters : List Char) (noBreak : '\n' ∉ characters) :
      (characters.flatMap fun character =>
        if character = '\n' then newline.toList else [character]) = characters := by
    induction characters with
    | nil => rfl
    | cons first rest inductionHypothesis =>
        obtain ⟨firstOther, restOther⟩ := not_or.1 (mt List.mem_cons.2 noBreak)
        rw [List.flatMap_cons, if_neg (Ne.symm firstOther), inductionHypothesis restOther]
        rfl
  rw [reflow, unchanged _ noBreak, String.ofList_toList]

/-- The end of a node. -/
def closing (newline : String) (closesBelow : Bool) : List Char :=
  (if closesBelow then newline.toList else []) ++ [')']

/-- The parts of a node behind the first one. -/
def further (newline : String) : List Outline → List Char
  | [] => []
  | part :: rest => ',' :: (newline.toList ++ (renderParts newline (part :: rest)).toList)

theorem toList_renderParts (newline : String) (part : Outline) (rest : List Outline) :
    (renderParts newline (part :: rest)).toList =
      '|' :: ' ' :: ((part.render (newline ++ "| ")).toList ++ further newline rest) := by
  cases rest with
  | nil => simp [renderParts, further]
  | cons next rest => simp [renderParts, further]

theorem toList_render_node
    (newline label : String) (closesBelow : Bool) (parts : List Outline) :
    (render newline (.node label closesBelow parts)).toList =
      label.toList ++ '(' :: (newline.toList ++
        ((renderParts newline parts).toList ++ closing newline closesBelow)) := by
  cases closesBelow <;> simp [render, closing]

theorem toList_render_leaf {text : String} (noBreak : '\n' ∉ text.toList) (newline : String) :
    (render newline (.leaf text)).toList = text.toList := by
  rw [render, reflow_eq noBreak]

/-- Lines are divided by a line break and a margin. -/
def IsNewline (newline : String) : Prop :=
  ∃ margin, newline.toList = '\n' :: margin

theorem IsNewline.deeper {newline : String} (isNewline : IsNewline newline) :
    IsNewline (newline ++ "| ") := by
  obtain ⟨margin, isMargin⟩ := isNewline
  exact ⟨margin ++ ['|', ' '], by simp [isMargin]⟩

theorem ends_further
    {newline : String} {parts : List Outline} {rest : List Char} (closes : Closes rest) :
    Ends (further newline parts ++ rest) := by
  cases parts with
  | nil => exact closes.ends
  | cons part parts =>
      rintro character ⟨⟩
      simp

section

variable {newline : String} (isNewline : IsNewline newline)

include isNewline

theorem closes_closing (closesBelow : Bool) (rest : List Char) :
    Closes (closing newline closesBelow ++ rest) := by
  obtain ⟨margin, isMargin⟩ := isNewline
  cases closesBelow with
  | false => exact ⟨')', rest, rfl, by simp⟩
  | true => exact ⟨'\n', margin ++ ')' :: rest, by simp [closing, isMargin], by simp⟩

theorem closing_injective
    {first second : Bool} {rest others : List Char}
    (same : closing newline first ++ rest = closing newline second ++ others) :
    first = second ∧ rest = others := by
  obtain ⟨margin, isMargin⟩ := isNewline
  cases first <;> cases second <;> simp [closing, isMargin] at same ⊢ <;> exact same

end

/-- Whatever follows, the text of the outline is the beginning of the text of no other. -/
def SelfDelimiting (first : Outline) : Prop :=
  ∀ {second : Outline} {newline : String} {rest others : List Char},
    Legible second → IsNewline newline → Ends rest → Ends others →
      (first.render newline).toList ++ rest = (second.render newline).toList ++ others →
      first = second ∧ rest = others

section

variable {newline : String} {parts otherParts : List Outline} {rest others : List Char}

theorem further_injective
    (isNewline : IsNewline newline) (delimiting : ∀ part ∈ parts, SelfDelimiting part)
    (legible : ∀ part ∈ otherParts, Legible part) (closes : Closes rest) (closesToo : Closes others)
    (same : further newline parts ++ rest = further newline otherParts ++ others) :
    parts = otherParts ∧ rest = others := by
  induction parts generalizing otherParts with
  | nil =>
      cases otherParts with
      | nil => exact ⟨rfl, same⟩
      | cons other otherParts =>
          exact absurd same (closes.ne_cons (by decide))
  | cons part parts inductionHypothesis =>
      cases otherParts with
      | nil =>
          exact absurd same.symm (closesToo.ne_cons (by decide))
      | cons other otherParts =>
          obtain ⟨partDelimiting, partsDelimiting⟩ := List.forall_mem_cons.1 delimiting
          obtain ⟨otherLegible, othersLegible⟩ := List.forall_mem_cons.1 legible
          rw [further, further, toList_renderParts, toList_renderParts] at same
          simp only [List.cons_append, List.append_assoc, List.cons.injEq, true_and,
            List.append_cancel_left_eq] at same
          obtain ⟨rfl, sameFurther⟩ := partDelimiting otherLegible isNewline.deeper
            (ends_further closes) (ends_further closesToo) same
          obtain ⟨rfl, sameRest⟩ := inductionHypothesis partsDelimiting othersLegible sameFurther
          exact ⟨rfl, sameRest⟩

theorem renderParts_injective
    (isNewline : IsNewline newline) (delimiting : ∀ part ∈ parts, SelfDelimiting part)
    (legible : ∀ part ∈ otherParts, Legible part) (closes : Closes rest) (closesToo : Closes others)
    (same : (renderParts newline parts).toList ++ rest =
      (renderParts newline otherParts).toList ++ others) :
    parts = otherParts ∧ rest = others := by
  cases parts with
  | nil =>
      cases otherParts with
      | nil => exact ⟨rfl, same⟩
      | cons other otherParts =>
          rw [toList_renderParts] at same
          exact absurd same (closes.ne_cons (by decide))
  | cons part parts =>
      cases otherParts with
      | nil =>
          rw [toList_renderParts] at same
          exact absurd same.symm (closesToo.ne_cons (by decide))
      | cons other otherParts =>
          -- With a comma and a line break before them they are parts behind another one.
          refine further_injective isNewline delimiting legible closes closesToo ?_
          simp only [further, List.cons_append, List.append_assoc, same]

end

section

variable {tag otherTag rest others : List Char}

theorem opened_injective
    (plain : Plain tag) (plainToo : Plain otherTag)
    (same : tag ++ '(' :: rest = otherTag ++ '(' :: others) : tag = otherTag ∧ rest = others := by
  obtain ⟨sameTag, sameRest⟩ := append_injective plain plainToo (by rintro _ ⟨⟩; rfl)
    (by rintro _ ⟨⟩; rfl) same
  exact ⟨sameTag, (List.cons.inj sameRest).2⟩

theorem sign_ne_opened
    (plain : Plain tag) (plainToo : Plain otherTag) (ends : Ends rest) :
    tag ++ rest ≠ otherTag ++ '(' :: others := by
  intro same
  obtain ⟨_, rfl⟩ := append_injective plain plainToo ends.stops (by rintro _ ⟨⟩; rfl) same
  have := ends '(' rfl
  simp at this

end

theorem selfDelimiting_sign {text : String} (plain : Plain text.toList) :
    SelfDelimiting (.leaf text) := by
  intro second newline rest others legible isNewline ends endsToo same
  rw [toList_render_leaf plain.not_newline] at same
  cases legible with
  | sign plainToo =>
      rw [toList_render_leaf plainToo.not_newline] at same
      obtain ⟨sameText, sameRest⟩ := append_injective plain plainToo ends.stops endsToo.stops same
      exact ⟨congrArg leaf (String.toList_inj.1 sameText), sameRest⟩
  | tagged tagged =>
      rw [toList_render_leaf tagged.not_newline] at same
      obtain ⟨tag, first, body, isText, tagPlain, _⟩ := tagged
      rw [isText, List.append_assoc] at same
      exact absurd same (sign_ne_opened plain tagPlain ends)
  | node plainToo _ =>
      rw [toList_render_node, List.append_assoc] at same
      exact absurd same (sign_ne_opened plain plainToo ends)

/-- No line break stands behind the parenthesis of a tag, as it does in a node. -/
theorem tagged_ne_node
    {text newline label : String} {closesBelow : Bool} {parts : List Outline}
    {rest others : List Char} (tagged : Tagged text.toList) (plain : Plain label.toList)
    (isNewline : IsNewline newline) :
    text.toList ++ rest ≠ (render newline (.node label closesBelow parts)).toList ++ others := by
  intro same
  obtain ⟨tag, first, body, isText, tagPlain, bodyPlain⟩ := tagged
  obtain ⟨margin, isMargin⟩ := isNewline
  rw [isText, toList_render_node, isMargin, List.append_assoc, List.append_assoc] at same
  obtain ⟨_, sameRest⟩ := opened_injective tagPlain plain same
  obtain ⟨rfl, _⟩ := List.cons.inj sameRest
  exact bodyPlain.not_newline List.mem_cons_self

theorem selfDelimiting_tagged {text : String} (tagged : Tagged text.toList) :
    SelfDelimiting (.leaf text) := by
  intro second newline rest others legible isNewline ends endsToo same
  rw [toList_render_leaf tagged.not_newline] at same
  cases legible with
  | sign plain =>
      rw [toList_render_leaf plain.not_newline] at same
      obtain ⟨tag, first, body, isText, tagPlain, _⟩ := tagged
      rw [isText, List.append_assoc] at same
      exact absurd same.symm (sign_ne_opened plain tagPlain endsToo)
  | @tagged otherText taggedToo =>
      rw [toList_render_leaf taggedToo.not_newline] at same
      obtain ⟨tag, first, body, isText, tagPlain, bodyPlain⟩ := tagged
      obtain ⟨otherTag, otherFirst, otherBody, isOther, otherTagPlain, otherBodyPlain⟩ := taggedToo
      simp only [isText, isOther, List.append_assoc, List.cons_append] at same
      obtain ⟨rfl, sameInside⟩ := opened_injective tagPlain otherTagPlain same
      have sameBody : first :: body = otherFirst :: otherBody ∧ ')' :: rest = ')' :: others :=
        append_injective bodyPlain otherBodyPlain (by rintro _ ⟨⟩; rfl) (by rintro _ ⟨⟩; rfl)
          sameInside
      obtain ⟨⟨rfl, rfl⟩, ⟨⟩⟩ := sameBody
      exact ⟨congrArg leaf (String.toList_inj.1 (isText.trans isOther.symm)), rfl⟩
  | node plain _ => exact absurd same (tagged_ne_node tagged plain isNewline)

/-- The parts of a node divide its text among them, and each shows where it ends. -/
theorem Legible.selfDelimiting {first : Outline} (legible : Legible first) :
    SelfDelimiting first := by
  induction legible with
  | sign plain => exact selfDelimiting_sign plain
  | tagged tagged => exact selfDelimiting_tagged tagged
  | @node label closesBelow parts plain _ inductionHypothesis =>
      intro second newline rest others legibleToo isNewline ends endsToo same
      cases legibleToo with
      | sign plainToo =>
          rw [toList_render_leaf plainToo.not_newline, toList_render_node,
            List.append_assoc] at same
          exact absurd same.symm (sign_ne_opened plainToo plain endsToo)
      | tagged tagged =>
          rw [toList_render_leaf tagged.not_newline] at same
          exact absurd same.symm (tagged_ne_node tagged plain isNewline)
      | node plainToo partsLegible =>
          simp only [toList_render_node, List.append_assoc, List.cons_append] at same
          obtain ⟨sameLabel, sameInside⟩ := opened_injective plain plainToo same
          obtain ⟨rfl, sameClosing⟩ := renderParts_injective isNewline inductionHypothesis
            partsLegible (closes_closing isNewline _ _) (closes_closing isNewline _ _)
            (List.append_cancel_left sameInside)
          obtain ⟨rfl, sameRest⟩ := closing_injective isNewline sameClosing
          rw [String.toList_inj.1 sameLabel]
          exact ⟨rfl, sameRest⟩

theorem text_eq_iff
    {first second : Outline} (legible : Legible first) (legibleToo : Legible second) :
    first.text = second.text ↔ first = second := by
  refine ⟨fun same => ?_, congrArg text⟩
  have nothing : Ends [] := nofun
  have isNewline : IsNewline "\n" := ⟨[], rfl⟩
  refine (legible.selfDelimiting legibleToo isNewline nothing nothing ?_).1
  rw [List.append_nil, List.append_nil]
  exact congrArg String.toList same

end Outline

end Slate
