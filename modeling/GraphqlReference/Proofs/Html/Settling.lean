import GraphqlReference.Proofs.Html.Flow

namespace GraphqlReference.Html

/-- A text begins, behind blanks, with a quotation mark or with the written form of a character
that is no blank. -/
def IsSeen (text : List Char) : Prop :=
  ∃ blanks word rest, text = blanks ++ (word ++ rest) ∧ (∀ c ∈ blanks, Text.isBlank c = true) ∧
    (word = ['"'] ∨ ∃ c, Text.isBlank c = false ∧ word = escapeChar c)

theorem IsSeen.append {text : List Char} (seen : IsSeen text) (behind : List Char) :
    IsSeen (text ++ behind) := by
  obtain ⟨blanks, word, rest, rfl, blank, known⟩ := seen
  exact ⟨blanks, word, rest ++ behind, by simp, blank, known⟩

theorem escape_blanks {blanks : List Char} (blank : ∀ c ∈ blanks, Text.isBlank c = true) :
    escape blanks = blanks := by
  induction blanks with
  | nil => rfl
  | cons c rest ih =>
      obtain ⟨first, others⟩ := List.forall_mem_cons.mp blank
      have alone : escapeChar c = [c] := by
        rcases escapeChar_cases c with ⟨_, _, same⟩ | ⟨rfl, _⟩ | ⟨rfl, _⟩ | ⟨rfl, _⟩ | ⟨rfl, _⟩
        · exact same
        all_goals exact absurd first (by decide)
      rw [escape_cons, alone, ih others, List.singleton_append]

theorem isSeen_escape {text : List Char} (visible : Text.isVisible text = true) :
    IsSeen (escape text) := by
  induction text with
  | nil => cases visible
  | cons c rest ih =>
      rw [escape_cons]
      cases blank : Text.isBlank c with
      | false => exact ⟨[], escapeChar c, escape rest, rfl, by simp, .inr ⟨c, blank, rfl⟩⟩
      | true =>
          rw [Text.isVisible_cons_blank blank] at visible
          obtain ⟨blanks, word, after, same, allBlank, known⟩ := ih visible
          have alone : escapeChar c = [c] := by
            have whole : escape [c] = [c] := escape_blanks (by simpa using blank)
            rwa [escape_singleton] at whole
          refine ⟨c :: blanks, word, after, ?_, List.forall_mem_cons.mpr ⟨blank, allBlank⟩, known⟩
          rw [alone, same, List.singleton_append, List.cons_append]

theorem isSeen_quotes {count : Nat} (some : 0 < count) : IsSeen (Piece.quotes count).write := by
  cases count with
  | zero => cases some
  | succ count => exact ⟨[], ['"'], List.replicate count '"', rfl, by simp, .inl rfl⟩

theorem skipFiller_blanks {blanks : List Char} (blank : ∀ c ∈ blanks, Text.isBlank c = true)
    (rest : List Char) : skipFiller (blanks ++ rest) = skipFiller rest := by
  induction blanks with
  | nil => rfl
  | cons c blanks ih =>
      obtain ⟨first, others⟩ := List.forall_mem_cons.mp blank
      have other : ¬ Piece.spacer.write <+: c :: (blanks ++ rest) := fun ⟨_, same⟩ =>
        absurd first ((List.cons.inj same).1 ▸ by decide)
      rw [List.cons_append, skipFiller_cons other, if_pos first, ih others]

theorem skipFiller_word {c : Char} {rest : List Char} (other : ¬ Piece.spacer.write <+: c :: rest)
    (shown : Text.isBlank c = false) : skipFiller (c :: rest) = (false, c :: rest) := by
  rw [skipFiller_cons other, shown]
  rfl

theorem skipFiller_escapeChar {c : Char} (shown : Text.isBlank c = false) (rest : List Char) :
    (skipFiller (escapeChar c ++ rest)).1 = false := by
  rcases escapeChar_cases c with
    ⟨unescaped, _, same⟩ | ⟨_, same⟩ | ⟨_, same⟩ | ⟨_, same⟩ | ⟨_, same⟩
  · have other : ¬ Piece.spacer.write <+: c :: rest := fun ⟨_, begins⟩ =>
      unescaped (List.cons.inj begins).1.symm
    rw [same, List.singleton_append, skipFiller_word other shown]
  all_goals
    rw [same]
    refine congrArg Prod.fst (skipFiller_word ?_ (by decide))
    rintro ⟨_, begins⟩
    exact absurd (List.cons.inj (List.cons.inj begins).2).1 (by decide)

theorem IsSeen.skipFiller {text : List Char} (seen : IsSeen text) :
    (skipFiller text).1 = false := by
  obtain ⟨blanks, word, rest, rfl, blank, known⟩ := seen
  rw [skipFiller_blanks blank]
  rcases known with rfl | ⟨c, shown, rfl⟩
  · refine congrArg Prod.fst (skipFiller_word ?_ (by decide))
    rintro ⟨_, begins⟩
    exact absurd (List.cons.inj begins).1 (by decide)
  · exact skipFiller_escapeChar shown rest

theorem IsSeen.not_blank {text : List Char} (seen : IsSeen text) :
    ¬ text.all Text.isBlank = true := by
  intro blank
  have skipped := seen.skipFiller
  obtain ⟨blanks, word, rest, rfl, _, known⟩ := seen
  rw [List.all_append, List.all_append, Bool.and_eq_true, Bool.and_eq_true] at blank
  rcases known with rfl | ⟨c, shown, rfl⟩
  · exact absurd blank.2.1 (by decide)
  · rcases escapeChar_cases c with ⟨_, _, same⟩ | ⟨_, same⟩ | ⟨_, same⟩ | ⟨_, same⟩ | ⟨_, same⟩
    · simp [same, shown] at blank
    all_goals
      rw [same] at blank
      exact absurd blank.2.1 (by decide)

/-- The run behind the last tag as it is laid out, beside what is to be seen of it. -/
inductive Pending : Run → List Char → List Char → Prop
  | bare {fresh : Bool} : Pending (.bare fresh) [] []
  | loose {fresh : Bool} {blanks : List Char} : (∀ c ∈ blanks, Text.isBlank c = true) →
      Pending (.loose fresh) blanks []
  | spaced {before after : List Char} : (∀ c ∈ before, Text.isBlank c = true) →
      (∀ c ∈ after, Text.isBlank c = true) →
      Pending .spaced (before ++ (Piece.spacer.write ++ after)) Piece.spacer.write
  | filled {text : List Char} : IsSeen text → Pending .filled text text
  | shut {text : List Char} : IsSeen text → Pending .shut text text

theorem IsSeen.closeRun {text : List Char} (seen : IsSeen text) : closeRun text = text := by
  have kept : dropBlankRun text = text := if_neg seen.not_blank
  have single : ¬ Html.skipFiller text = (true, []) := fun merged =>
    absurd (seen.skipFiller.symm.trans (congrArg Prod.fst merged)) (by decide)
  rw [Html.closeRun, kept, mergeSpacerRun, if_neg single]

theorem Pending.closeRun {run : Run} {text shown : List Char} (pending : Pending run text shown) :
    closeRun text = shown := by
  cases pending with
  | bare => decide
  | loose blank =>
      have dropped : dropBlankRun text = [] := if_pos (List.all_eq_true.mpr blank)
      rw [Html.closeRun, dropped]
      decide
  | @spaced before after blankBefore blankAfter =>
      have kept : dropBlankRun (before ++ (Piece.spacer.write ++ after)) =
          before ++ (Piece.spacer.write ++ after) := by
        refine if_neg ?_
        rw [List.all_append, List.all_append, Bool.and_eq_true, Bool.and_eq_true]
        exact fun blank => absurd blank.2.1 (by decide)
      have nothing := skipFiller_blanks blankAfter []
      rw [List.append_nil] at nothing
      have merged : skipFiller (before ++ (Piece.spacer.write ++ after)) = (true, []) := by
        rw [skipFiller_blanks blankBefore, skipFiller_spacer, nothing]
        rfl
      rw [Html.closeRun, kept, mergeSpacerRun, if_pos merged]
  | filled seen | shut seen => exact seen.closeRun

theorem Pending.shown_eq_nil {run : Run} {text shown : List Char}
    (pending : Pending run text shown) :
    shown = [] → run.isEmpty = true := by
  cases pending with
  | bare | loose => exact fun _ => rfl
  | spaced => exact fun none => absurd none (by decide)
  | filled seen | shut seen =>
      rintro rfl
      exact absurd rfl seen.not_blank

theorem Cut.settle_next {run : List Char} {tag : Tag} {behind : Cut} {previous : List Char}
    (kept : ¬ (closeRun run = [] ∧ previous = lineOpening ∧ tag.write = lineClosing)) :
    (Cut.next run tag behind).settle true previous =
      .next (closeRun run) tag (behind.settle true tag.write) := by
  simp only [Cut.settle, Cut.mapGaps, Cut.fillEmpty, if_true, kept, if_false]

theorem opening_ne_lineClosing (element : Element) (attributes : List Attribute) :
    (Tag.opening element attributes).write ≠ lineClosing := by
  have tagged : ∃ c rest, element.tag.toList = c :: rest ∧ c ≠ '/' := by
    cases element <;> exact ⟨_, _, rfl, by decide⟩
  obtain ⟨c, rest, name, different⟩ := tagged
  have written : (Tag.opening element attributes).write =
      '<' :: c :: (rest ++ attributes.flatMap Attribute.write ++ ['>']) := by
    simp [Tag.write, Tag.content, name]
  rw [written]
  exact fun same => different (List.cons.inj (List.cons.inj same).2).1

theorem closing_ne_lineOpening (element : Element) :
    (Tag.closing element).write ≠ lineOpening := by
  cases element <;> decide

theorem Cut.settle_opening {run : Run} {text shown : List Char}
    (pending : Pending run text shown) (element : Element) (attributes : List Attribute)
    (behind : Cut) (previous : List Char) :
    (Cut.next text (.opening element attributes) behind).settle true previous =
      .next shown (.opening element attributes)
        (behind.settle true (Tag.opening element attributes).write) := by
  have kept : ¬ (closeRun text = [] ∧ previous = lineOpening ∧
      (Tag.opening element attributes).write = lineClosing) :=
    fun filled => opening_ne_lineClosing element attributes filled.2.2
  rw [Cut.settle_next kept, pending.closeRun]

theorem Cut.settle_closing {run : Run} {text shown previous : List Char}
    (pending : Pending run text shown) (opened : run.isEmpty = true → previous ≠ lineOpening)
    (element : Element) (behind : Cut) :
    (Cut.next text (.closing element) behind).settle true previous =
      .next shown (.closing element) (behind.settle true (Tag.closing element).write) := by
  have kept : ¬ (closeRun text = [] ∧ previous = lineOpening ∧
      (Tag.closing element).write = lineClosing) := by
    rintro ⟨none, opens, _⟩
    rw [pending.closeRun] at none
    exact opened (pending.shown_eq_nil none) opens
  rw [Cut.settle_next kept, pending.closeRun]

theorem Pending.spacer {run : Run} {text shown : List Char} (pending : Pending run text shown)
    (empty : run.isEmpty = true) :
    Pending .spaced (text ++ Piece.spacer.write) (shown ++ Piece.spacer.write) := by
  have none : ∀ c ∈ ([] : List Char), Text.isBlank c = true := by simp
  cases pending with
  | bare => exact .spaced none none
  | loose blank => exact .spaced blank none
  | spaced | filled | shut => cases empty

theorem Pending.loosen {run : Run} {text shown blanks : List Char}
    (pending : Pending run text shown) (inGap : run.isOpen = true)
    (blank : ∀ c ∈ blanks, Text.isBlank c = true) :
    Pending run.loosen (text ++ blanks) shown := by
  cases pending with
  | bare => exact .loose blank
  | loose before => exact .loose (List.forall_mem_append.mpr ⟨before, blank⟩)
  | spaced before after =>
      rw [List.append_assoc, List.append_assoc]
      exact .spaced before (List.forall_mem_append.mpr ⟨after, blank⟩)
  | filled | shut => cases inGap

section

variable {rules : Rules} {place behind : Place} {laid shown : Fragment}

/-- A laid out fragment settles to the one that is to be shown. -/
theorem Laid.settle (visible : ∀ text, rules.shows text → Text.isVisible text = true)
    {fresh : Bool} (flow : Laid rules place laid shown behind) (ends : behind.run = .bare fresh)
    {text textShown previous : List Char} (pending : Pending place.run text textShown)
    (opened : place.run.isEmpty = true → place.run.isFresh = false → previous ≠ lineOpening) :
    (Fragment.cutFrom text laid).settle true previous = Fragment.cutFrom textShown shown := by
  induction flow generalizing text textShown previous with
  | nil =>
      rw [ends] at pending
      cases pending
      rfl
  | piece step _ ih =>
      cases step with
      | @opening _ _ element attributes _ =>
          rw [Fragment.cutFrom, Fragment.cutFrom, Cut.settle_opening pending]
          exact congrArg _ (ih ends .bare fun _ closed => of_decide_eq_false closed)
      | @closing _ _ element seen =>
          rw [Fragment.cutFrom, Fragment.cutFrom,
            Cut.settle_closing pending fun empty => opened empty seen]
          exact congrArg _ (ih ends .bare fun _ _ => closing_ne_lineOpening element)
      | spacer empty =>
          exact ih ends (pending.spacer empty) fun empty => absurd empty Bool.false_ne_true
      | @text _ _ content allowed =>
          cases pending
          exact ih ends (.filled (isSeen_escape (visible content allowed)))
            fun empty => absurd empty Bool.false_ne_true
      | moreText =>
          cases pending with
          | filled seen =>
              exact ih ends (.filled (seen.append _)) fun empty => absurd empty Bool.false_ne_true
      | quotes some =>
          cases pending
          exact ih ends (.filled (isSeen_quotes some)) fun empty => absurd empty Bool.false_ne_true
      | lastQuotes =>
          cases pending with
          | filled seen =>
              exact ih ends (.shut (seen.append _)) fun empty => absurd empty Bool.false_ne_true
  | @layout _ run blanks _ _ _ inGap blank _ ih =>
      have written : (Piece.text blanks).write = blanks := escape_blanks blank
      rw [Fragment.cutFrom, written]
      refine ih ends (pending.loosen inGap blank) ?_
      cases pending <;> exact opened
  | @emptyLine _ _ laid shown behind empty _ ih =>
      have inner : (Fragment.cutFrom [] (.closing .division :: laid)).settle true lineOpening =
          .next Piece.spacer.write (.closing .division) (Fragment.cutFrom [] shown) := by
        rw [← ih ends .bare fun _ _ => closing_ne_lineOpening .division]
        rfl
      have outer := Cut.settle_opening pending .division [.style "line"]
        (Fragment.cutFrom [] (.closing .division :: laid)) previous
      exact outer.trans (congrArg _ inner)

end

/-- Behind a closing tag, a text settles by itself. -/
theorem Cut.write_settle_closing (fragment rest : Fragment) (element : Element) (run : List Char)
    (behindTag : Bool) (previous : List Char) :
    ((Fragment.cutFrom run (fragment ++ .closing element :: rest)).settle
      behindTag previous).write =
      ((Fragment.cutFrom run (fragment ++ [.closing element])).settle behindTag previous).write ++
        ((Fragment.cutFrom [] rest).settle true (Tag.closing element).write).write := by
  unfold settle
  induction fragment generalizing run behindTag previous with
  | nil => simp [Fragment.cutFrom, mapGaps, fillEmpty, write]
  | cons piece fragment ih =>
      cases piece with
      | opening | closing =>
          simp only [List.cons_append, Fragment.cutFrom, mapGaps, fillEmpty, write, ih,
            List.append_assoc]
      | text | quotes | spacer => exact ih _ _ _

section

variable {rules : Rules} {place behind : Place} {laid shown : Fragment}

/-- Behind a closing tag, what is laid out becomes what is to be shown. -/
theorem Laid.normalize_behind {fragment : Fragment} {fresh : Bool}
    (visible : ∀ text, rules.shows text → Text.isVisible text = true)
    (plain : ∀ piece ∈ fragment, piece.isPlain = true) (element : Element)
    (flow : Laid rules place laid shown behind) (starts : Pending place.run [] [])
    (ends : behind.run = .bare fresh) :
    normalize (Fragment.write (fragment ++ [.closing element]) ++ laid.write) =
      normalize (Fragment.write (fragment ++ [.closing element])) ++ shown.write := by
  have last : (Piece.closing element).isPlain = true := rfl
  have before : ∀ piece ∈ fragment ++ [.closing element], piece.isPlain = true :=
    List.forall_mem_append.mpr ⟨plain, List.forall_mem_singleton.mpr last⟩
  have whole := Fragment.isClean_cutFrom isRun_nil
    (List.forall_mem_append.mpr ⟨plain, List.forall_mem_cons.mpr ⟨last, flow.isPlain⟩⟩)
  have normal := normalize_write whole
  have normalBefore := normalize_write (Fragment.isClean_cutFrom isRun_nil before)
  rw [Fragment.write_cutFrom, List.nil_append] at normal normalBefore
  have settled := flow.settle visible ends starts fun _ _ => closing_ne_lineOpening element
  rw [Cut.write_settle_closing, settled, Fragment.write_cutFrom, List.nil_append,
    ← normalBefore] at normal
  rw [← normal, ← Fragment.write_append, List.append_assoc, List.singleton_append]

/-- What may follow the layout is no empty line, because an empty line does not stay as it is. -/
theorem Laid.ne_emptyLine {opened : List Element} {run : Run} {fragment : Fragment}
    (visible : ∀ text, rules.shows text → Text.isVisible text = true)
    (inGap : run.isOpen = true) (flow : Flow rules ⟨opened, run.loosen⟩ fragment behind) :
    fragment.write ≠ Fragment.emptyLine.write := by
  intro same
  have none : ∀ piece ∈ ([] : Fragment), piece.isPlain = true := by simp
  have opening : Step rules behind (.opening .span [.style "line"])
      ⟨.span :: behind.opened, .bare (opensLine .span [.style "line"])⟩ :=
    .opening (rules.styled (by decide) (by decide))
  have longer := flow.append opening.flow
  cases run with
  | bare | loose =>
      have kept := Laid.normalize_behind visible none .span longer (.loose (by simp)) rfl
      rw [Fragment.write_append fragment, same] at kept
      exact absurd kept (by decide)
  | spaced =>
      have spaced : Step rules ⟨opened, .bare false⟩ .spacer ⟨opened, .spaced⟩ := .spacer rfl
      have kept := Laid.normalize_behind visible none .span (.piece spaced longer) .bare rfl
      rw [Fragment.write_cons, Fragment.write_append fragment, same] at kept
      exact absurd kept (by decide)
  | filled | shut => cases inGap

end

end GraphqlReference.Html
