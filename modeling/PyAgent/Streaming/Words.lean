import Mathlib.Data.List.Basic
import Mathlib.Data.List.TakeWhile

/-!
# Words

A text is cut into words at every run of separators, all at once or one word after
the other. Both ways find the same words, also in an encoded text, as long as the
separators are encoded as separators and nothing else is.
-/

namespace Streaming
set_option autoImplicit false

universe u v
variable {α : Type u} {β : Type v}

def words (sep : α → Bool) (cs : List α) : List (List α) :=
  (cs.splitOnP sep).filter fun w => !w.isEmpty

/-- The first word, and what stands behind it. -/
def nextWord (sep : α → Bool) (cs : List α) : Option (List α × List α) :=
  match cs.dropWhile sep with
  | [] => none
  | c :: rest => some ((c :: rest).takeWhile fun d => !sep d, (c :: rest).dropWhile fun d => !sep d)

section
variable {sep : α → Bool}

theorem words_append_cons {c : α} (hc : sep c = true) (a b : List α) :
    words sep (a ++ c :: b) = words sep a ++ words sep b := by
  rw [words, List.splitOnP_append_cons a b hc, List.filter_append]
  rfl

theorem words_cons {c : α} (hc : sep c = true) (cs : List α) :
    words sep (c :: cs) = words sep cs :=
  words_append_cons hc [] cs

theorem words_of_no_sep {w : List α} (hw : ∀ c ∈ w, sep c = false) (hne : w ≠ []) :
    words sep w = [w] := by
  rw [words, List.splitOnP_eq_singleton hw]
  simp [hne]

theorem no_sep_of_mem_splitOnP {cs w : List α} (hw : w ∈ cs.splitOnP sep) :
    ∀ c ∈ w, sep c = false := by
  induction cs generalizing w with
  | nil =>
    obtain rfl := List.mem_singleton.mp hw
    exact fun c hc => nomatch hc
  | cons d cs ih =>
    rw [List.splitOnP_cons_eq_if_modifyHead] at hw
    split at hw
    · rcases List.mem_cons.mp hw with rfl | hw
      · exact fun c hc => nomatch hc
      · exact ih hw
    · rename_i hd
      cases hsplit : cs.splitOnP sep with
      | nil => exact absurd hsplit (List.splitOnP_ne_nil sep cs)
      | cons v vs =>
        rw [hsplit] at hw ih
        rcases List.mem_cons.mp hw with rfl | hw
        · intro c hc
          rcases List.mem_cons.mp hc with rfl | hc
          · exact Bool.eq_false_iff.mpr hd
          · exact ih List.mem_cons_self c hc
        · exact ih (List.mem_cons_of_mem v hw)

theorem no_sep_of_mem_words {cs w : List α} (hw : w ∈ words sep cs) : ∀ c ∈ w, sep c = false :=
  no_sep_of_mem_splitOnP (List.mem_filter.mp hw).1

theorem words_dropWhile (cs : List α) : words sep (cs.dropWhile sep) = words sep cs := by
  induction cs with
  | nil => rfl
  | cons c cs ih =>
    rw [List.dropWhile_cons]
    split
    · rename_i hc
      rw [ih, words_cons hc]
    · rfl

/-- The words are found one after the other. -/
theorem words_eq (cs : List α) :
    words sep cs = (nextWord sep cs).elim [] fun r => r.1 :: words sep r.2 := by
  rw [← words_dropWhile, nextWord]
  cases hdrop : cs.dropWhile sep with
  | nil => rfl
  | cons c rest =>
    have hc : sep c = false := by
      have hhead := List.head_dropWhile_not sep (l := cs) (by simp [hdrop])
      simpa [hdrop] using hhead
    have hword : ∀ d ∈ (c :: rest).takeWhile (fun d => !sep d), sep d = false := by
      intro d hd
      simpa using List.mem_takeWhile_imp hd
    have hne : (c :: rest).takeWhile (fun d => !sep d) ≠ [] := by simp [hc]
    have hwhole := List.takeWhile_append_dropWhile (p := fun d => !sep d) (l := c :: rest)
    simp only [Option.elim_some]
    cases hbehind : (c :: rest).dropWhile fun d => !sep d with
    | nil =>
      rw [hbehind, List.append_nil] at hwhole
      rw [hwhole] at hword hne ⊢
      exact words_of_no_sep hword hne
    | cons d ds =>
      have hd : sep d = true := by
        have hhead := List.head_dropWhile_not (fun d => !sep d) (l := c :: rest) (by simp [hbehind])
        simpa [hbehind] using hhead
      rw [hbehind] at hwhole
      calc words sep (c :: rest)
          = words sep ((c :: rest).takeWhile (fun d => !sep d) ++ d :: ds) := by rw [hwhole]
        _ = (c :: rest).takeWhile (fun d => !sep d) :: words sep ds := by
          rw [words_append_cons hd, words_of_no_sep hword hne]
          rfl
        _ = (c :: rest).takeWhile (fun d => !sep d) :: words sep (d :: ds) := by
          rw [words_cons hd]

end

/-! ## Encoded texts -/

theorem splitOnP_append {sep : β → Bool} {bs : List β} (hbs : ∀ b ∈ bs, sep b = false)
    (rest : List β) :
    (bs ++ rest).splitOnP sep = (rest.splitOnP sep).modifyHead (bs ++ ·) := by
  induction bs with
  | nil =>
    rw [List.nil_append]
    cases rest.splitOnP sep with
    | nil => rfl
    | cons w ws => rfl
  | cons b bs ih =>
    obtain ⟨hb, hbs⟩ := List.forall_mem_cons.mp hbs
    rw [List.cons_append, List.splitOnP_cons_eq_if_modifyHead, if_neg (by simp [hb]), ih hbs,
      List.modifyHead_modifyHead]
    rfl

/-- The separators of a text, and nothing else in it, are encoded as single separators. -/
structure KeepsSep (sepα : α → Bool) (sepβ : β → Bool) (enc : α → List β) (c : α) : Prop where
  sep : sepα c = true → ∃ b, enc c = [b] ∧ sepβ b = true
  other : sepα c = false → ∀ b ∈ enc c, sepβ b = false

section
variable {sepα : α → Bool} {sepβ : β → Bool} {enc : α → List β}

theorem splitOnP_flatMap {cs : List α} (hcs : ∀ c ∈ cs, KeepsSep sepα sepβ enc c) :
    (cs.flatMap enc).splitOnP sepβ = (cs.splitOnP sepα).map (·.flatMap enc) := by
  induction cs with
  | nil => rfl
  | cons c cs ih =>
    obtain ⟨hc, hcs⟩ := List.forall_mem_cons.mp hcs
    rw [List.flatMap_cons, List.splitOnP_cons_eq_if_modifyHead]
    split
    · rename_i hsep
      obtain ⟨b, hb, hsepb⟩ := hc.sep hsep
      rw [hb, List.singleton_append, List.splitOnP_cons_eq_if_modifyHead, if_pos hsepb, ih hcs]
      rfl
    · rename_i hsep
      rw [splitOnP_append (hc.other (Bool.eq_false_iff.mpr hsep)), ih hcs]
      cases cs.splitOnP sepα with
      | nil => rfl
      | cons w ws => rfl

/-- The words of an encoded text are the encoded words. -/
theorem words_flatMap (henc : ∀ c, enc c ≠ []) {cs : List α}
    (hcs : ∀ c ∈ cs, KeepsSep sepα sepβ enc c) :
    words sepβ (cs.flatMap enc) = (words sepα cs).map (·.flatMap enc) := by
  have hempty : ∀ w : List α, (w.flatMap enc).isEmpty = w.isEmpty := by
    intro w
    cases w with
    | nil => rfl
    | cons c w => simp [henc c]
  rw [words, splitOnP_flatMap hcs, List.filter_map, words]
  congr 1
  apply List.filter_congr
  intro w _
  simp only [Function.comp_apply, hempty]

end

end Streaming
