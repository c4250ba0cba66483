import Flowplan.Proofs.Identities
import Mathlib.Data.List.Infix

/-!
# Cutting texts

A text that was put together from parts is taken apart again where the separators can be told from
the parts. A part without the separator ends at its first place, and what follows the last place of
a separator is found from behind. The lists are lists of letters; nothing is known about the parts
except which letters, or which two letters in a row, they do not have.
-/

namespace Flowplan

section Cuts

variable {α : Type}

/-! ## The last place of a separator -/

/-- A list that ends with a separator was not continued by letters without it. -/
theorem eq_nil_of_ends {separator : α} {front more : List α}
    (ends : ∀ letter ∈ (front ++ more).getLast?, letter = separator) (free : separator ∉ more) :
    more = [] := by
  by_contra nonempty
  have last : (front ++ more).getLast? = some (more.getLast nonempty) := by
    rw [List.getLast?_append, List.getLast?_eq_some_getLast nonempty, Option.some_or]
  exact free (ends _ last ▸ List.getLast_mem nonempty)

/-- A list is cut in one way behind the last place of a separator. -/
theorem append_inj_of_ends {separator : α} {front otherFront back otherBack : List α}
    (ends : ∀ letter ∈ front.getLast?, letter = separator)
    (otherEnds : ∀ letter ∈ otherFront.getLast?, letter = separator)
    (free : separator ∉ back) (otherFree : separator ∉ otherBack)
    (same : front ++ back = otherFront ++ otherBack) : front = otherFront ∧ back = otherBack := by
  cases List.append_eq_append_iff.mp same with
  | inl longer =>
      obtain ⟨more, rfl, rfl⟩ := longer
      obtain rfl := eq_nil_of_ends otherEnds fun member => free (List.mem_append_left _ member)
      exact ⟨(List.append_nil front).symm, List.nil_append otherBack⟩
  | inr shorter =>
      obtain ⟨more, rfl, rfl⟩ := shorter
      obtain rfl := eq_nil_of_ends ends fun member => otherFree (List.mem_append_left _ member)
      exact ⟨List.append_nil otherFront, (List.nil_append back).symm⟩

/-! ## Two letters in a row -/

/-- Two different letters stand in a row once if they do not do so behind that place. -/
theorem eq_nil_of_pair {first second : α} (different : first ≠ second)
    {more back otherBack : List α} (free : ¬ [first, second] <:+: back)
    (same : first :: second :: back = more ++ first :: second :: otherBack) : more = [] := by
  cases more with
  | nil => rfl
  | cons head rest =>
      cases rest with
      | nil =>
          have sameSecond : second = first := (List.cons.inj (List.cons.inj same).2).1
          exact absurd sameSecond.symm different
      | cons next others =>
          have isBack : back = others ++ first :: second :: otherBack :=
            (List.cons.inj (List.cons.inj same).2).2
          exact absurd ⟨others, otherBack, by simp [isBack]⟩ free

/-- A list is cut in one way at the last place of two different letters in a row. -/
theorem append_pair_inj {first second : α} (different : first ≠ second)
    {front otherFront back otherBack : List α} (free : ¬ [first, second] <:+: back)
    (otherFree : ¬ [first, second] <:+: otherBack)
    (same : front ++ first :: second :: back = otherFront ++ first :: second :: otherBack) :
    front = otherFront ∧ back = otherBack := by
  cases List.append_eq_append_iff.mp same with
  | inl longer =>
      obtain ⟨more, rfl, rest⟩ := longer
      obtain rfl := eq_nil_of_pair different free rest
      simpa using rest
  | inr shorter =>
      obtain ⟨more, rfl, rest⟩ := shorter
      obtain rfl := eq_nil_of_pair different otherFree rest
      simpa [eq_comm] using rest

/-- Two letters in a row stand in the first part, in the second, or where the parts meet. -/
theorem pair_infix_append {first second : α} {front back : List α}
    (stands : [first, second] <:+: front ++ back) :
    [first, second] <:+: front ∨ [first, second] <:+: back ∨
      first ∈ front ∧ back.head? = some second := by
  obtain ⟨before, after, split⟩ := stands
  rw [List.append_assoc] at split
  cases List.append_eq_append_iff.mp split with
  | inr behind =>
      obtain ⟨more, rfl, rfl⟩ := behind
      exact Or.inr (Or.inl ⟨more, after, by simp⟩)
  | inl earlier =>
      obtain ⟨more, rfl, rest⟩ := earlier
      cases more with
      | nil => exact Or.inr (Or.inl ⟨[], after, by simpa using rest⟩)
      | cons head others =>
          obtain ⟨rfl, isRest⟩ := List.cons.inj rest
          cases others with
          | nil =>
              have isBack : back = second :: after := isRest.symm
              exact Or.inr (Or.inr ⟨by simp, by rw [isBack, List.head?_cons]⟩)
          | cons next others =>
              obtain ⟨rfl, _⟩ := List.cons.inj isRest
              exact Or.inl ⟨before, others, by simp⟩

/-! ## Lists of parts -/

/-- Every letter of parts with separators in between is in a part or in a separator. -/
theorem mem_intercalate {separator : List α} {parts : List (List α)} {letter : α}
    (member : letter ∈ separator.intercalate parts) :
    letter ∈ separator ∨ ∃ part ∈ parts, letter ∈ part := by
  induction parts with
  | nil => simp at member
  | cons part rest inductionHypothesis =>
      cases rest with
      | nil => exact Or.inr ⟨part, by simp, by simpa using member⟩
      | cons next others =>
          rw [List.intercalate_cons_cons, List.mem_append, List.mem_append] at member
          rcases member with (here | between) | later
          · exact Or.inr ⟨part, List.mem_cons_self, here⟩
          · exact Or.inl between
          · exact (inductionHypothesis later).imp_right fun ⟨found, foundIn, isIn⟩ =>
              ⟨found, List.mem_cons_of_mem part foundIn, isIn⟩

/-- Parts with separators in between are the first part, and the others each behind a separator. -/
theorem intercalate_cons (separator part : List α) (rest : List (List α)) :
    separator.intercalate (part :: rest) =
      part ++ rest.flatMap fun other => separator ++ other := by
  induction rest generalizing part with
  | nil => simp
  | cons next others inductionHypothesis =>
      rw [List.intercalate_cons_cons, inductionHypothesis, List.flatMap_cons, List.append_assoc,
        List.append_assoc]

/-- Lines of one mark are told from what follows them, and from one another, if they hold no line
break and what follows does not begin with that mark. -/
theorem lines_inj {mark lineBreak : α} {lines others : List (List α)} {rest otherRest : List α}
    (marked : ∀ line ∈ lines, line.head? = some mark ∧ lineBreak ∉ line)
    (otherMarked : ∀ line ∈ others, line.head? = some mark ∧ lineBreak ∉ line)
    (unmarked : rest.head? ≠ some mark) (otherUnmarked : otherRest.head? ≠ some mark)
    (same : (lines.flatMap fun line => line ++ [lineBreak]) ++ rest =
      (others.flatMap fun line => line ++ [lineBreak]) ++ otherRest) :
    lines = others ∧ rest = otherRest := by
  have begins : ∀ (line : List α) (text : List α), line.head? = some mark →
      (line ++ text).head? = some mark := by
    intro line text headed
    rw [List.head?_append, headed, Option.some_or]
  induction lines generalizing others with
  | nil =>
      cases others with
      | nil => exact ⟨rfl, same⟩
      | cons line later =>
          rw [List.flatMap_nil, List.nil_append, List.flatMap_cons, List.append_assoc,
            List.append_assoc] at same
          rw [same] at unmarked
          exact absurd (begins line _ (otherMarked line List.mem_cons_self).1) unmarked
  | cons line later inductionHypothesis =>
      cases others with
      | nil =>
          rw [List.flatMap_nil, List.nil_append, List.flatMap_cons, List.append_assoc,
            List.append_assoc] at same
          rw [← same] at otherUnmarked
          exact absurd (begins line _ (marked line List.mem_cons_self).1) otherUnmarked
      | cons otherLine otherLater =>
          simp only [List.flatMap_cons, List.append_assoc, List.singleton_append] at same
          obtain ⟨rfl, behind⟩ := append_cons_inj_of_not_mem (marked line List.mem_cons_self).2
            (otherMarked otherLine List.mem_cons_self).2 same
          obtain ⟨rfl, restSame⟩ := inductionHypothesis
            (fun one member => marked one (List.mem_cons_of_mem _ member))
            (fun one member => otherMarked one (List.mem_cons_of_mem _ member)) behind
          exact ⟨rfl, restSame⟩

end Cuts

/-! ## Numbers and lists of names -/

/-- The digits of a number hold nothing but digits. -/
theorem not_mem_digits {letter : Char} (notDigit : letter.isDigit = false) (number : Nat) :
    letter ∉ (toString number).toList := by
  intro member
  rw [Nat.toString_eq_repr, Nat.toList_repr] at member
  have digit := Nat.isDigit_of_mem_toDigits (by decide) (by decide) member
  exact absurd digit (by simp [notDigit])

/-- The digits of a number tell it. -/
theorem toString_injective {first second : Nat}
    (same : (toString first).toList = (toString second).toList) : first = second :=
  Source.digits_injective first second same

/-- A whole number may have a minus sign. -/
theorem not_mem_signed_digits {letter : Char} (notDigit : letter.isDigit = false)
    (notMinus : letter ≠ '-') (number : Int) : letter ∉ (toString number).toList := by
  rw [Int.toString_eq_repr, Int.repr_eq_if]
  split
  · exact not_mem_digits notDigit _
  · have minus : "-".toList = ['-'] := by decide
    rw [String.toList_append, minus, List.singleton_append, List.mem_cons, not_or]
    exact ⟨notMinus, not_mem_digits notDigit _⟩

/-- The digits of a number tell it, with its sign. -/
theorem signed_injective {first second : Int}
    (same : (toString first).toList = (toString second).toList) : first = second := by
  have minus : "-".toList = ['-'] := by decide
  have unsigned : ∀ number : Nat, '-' ∉ (toString number).toList := not_mem_digits (by decide)
  rw [Int.toString_eq_repr, Int.toString_eq_repr, Int.repr_eq_if, Int.repr_eq_if] at same
  split at same <;> split at same
  · have values := toString_injective same
    omega
  · rw [String.toList_append, minus] at same
    exact absurd (same ▸ List.mem_cons_self) (unsigned first.toNat)
  · rw [String.toList_append, minus] at same
    exact absurd (same ▸ List.mem_cons_self) (unsigned second.toNat)
  · rw [String.toList_append, String.toList_append] at same
    have values := toString_injective (List.append_cancel_left same)
    omega

/-- The letters of names with commas in between. -/
def commas (names : List String) : List Char := [','].intercalate (names.map String.toList)

/-- The letters of names joined by commas. -/
theorem toList_commas (names : List String) : (",".intercalate names).toList = commas names := by
  have comma : ",".toList = [','] := by decide
  rw [String.toList_intercalate, comma, commas]

/-- Names without commas are told from their letters, if there are any names. -/
theorem commas_injective {names others : List String} (inhabited : names ≠ [])
    (otherInhabited : others ≠ []) (plain : ∀ name ∈ names, ',' ∉ name.toList)
    (otherPlain : ∀ name ∈ others, ',' ∉ name.toList) (same : commas names = commas others) :
    names = others := by
  have split : ∀ {list : List String}, list ≠ [] → (∀ name ∈ list, ',' ∉ name.toList) →
      (commas list).splitOn ',' = list.map String.toList := by
    intro list nonempty free
    exact List.splitOn_intercalate ',' (List.forall_mem_map.mpr free) (by simpa using nonempty)
  have letters : names.map String.toList = others.map String.toList := by
    rw [← split inhabited plain, ← split otherInhabited otherPlain, same]
  exact List.map_injective_iff.mpr (fun _ _ => String.toList_injective) letters

/-- A letter that is no comma and in none of the names is not between commas either. -/
theorem not_mem_commas {letter : Char} (notComma : letter ≠ ',') {names : List String}
    (free : ∀ name ∈ names, letter ∉ name.toList) : letter ∉ commas names := by
  intro member
  cases mem_intercalate member with
  | inl between => exact notComma (List.mem_singleton.mp between)
  | inr inside =>
      obtain ⟨part, listed, isIn⟩ := inside
      obtain ⟨name, named, rfl⟩ := List.mem_map.mp listed
      exact free name named isIn

/-! ## Bytes -/

/-- The list of bytes is read off one by one. -/
theorem toList_bytes (bytes : ByteArray) : bytes.toList = bytes.data.toList := by
  have loop : ∀ index taken, ByteArray.toList.loop bytes index taken =
      taken.reverse ++ bytes.data.toList.drop index := by
    intro index taken
    fun_induction ByteArray.toList.loop with
    | case1 index taken inside inductionHypothesis =>
        have bound : index < bytes.data.toList.length := by simpa using inside
        have read : bytes.get! index = bytes.data.toList[index] := by
          cases bytes with
          | mk data => exact getElem!_pos data index (by simpa using bound)
        rw [inductionHypothesis, List.drop_eq_getElem_cons bound, read]
        simp
    | case2 index taken outside =>
        have bound : bytes.data.toList.length ≤ index := by simpa using outside
        rw [List.drop_eq_nil_of_le bound, List.append_nil]
  rw [ByteArray.toList, loop]
  rfl

/-- Texts with the same bytes are the same. -/
theorem bytes_injective {text other : String}
    (same : text.toUTF8.toList = other.toUTF8.toList) : text = other := by
  rw [toList_bytes, toList_bytes, Array.toList_inj] at same
  refine String.toByteArray_inj.mp (ByteArray.ext ?_)
  rwa [String.toUTF8_eq_toByteArray, String.toUTF8_eq_toByteArray] at same

end Flowplan
