import Solwright.Prompt
import Solwright.Proofs.Json.Unambiguous
import Solwright.Proofs.Text.Raw

/-! The parts of a question. A prompt stands in it as it is, quotes and line ends included, and the configuration
behind it is on one line of its own, the last one; so both can be told from the question. -/

namespace Solwright.Prompt

open Json

/-- A configuration that a question can have: none, or an object with members. -/
inductive IsContext : Json → Prop
  | none : IsContext .null
  | given {ms : List (RawText × Json)} : ms ≠ [] → IsProper (.obj ms) → IsContext (.obj ms)

/-- Every object with members that is read from a text can be the configuration of a question. -/
theorem isContext_of_read {limit : Nat} {s : List Char} {ms : List (RawText × Json)}
    (h : Json.read limit s = .ok (.obj ms)) (hms : ms ≠ []) : IsContext (.obj ms) :=
  .given hms (isProper_of_read h)

variable {heading : String} {p q : RawText} {c d : Json} {ms : List (RawText × Json)}

theorem contextText_null (heading : String) : contextText heading .null = "" := rfl

/-- The last line of a question with a configuration. -/
def contextLine (heading : String) (c : Json) : List Char := heading.toList ++ ':' :: ' ' :: write c

theorem contextText_obj (h : ms ≠ []) : (contextText heading (.obj ms)).toList =
    '\n' :: '\n' :: contextLine heading (.obj ms) := by
  have htrue : (Json.obj ms).isTrue = true := by simpa [Json.isTrue] using h
  rw [contextText, if_pos htrue]
  simp [contextLine]

theorem newline_notMem_contextLine (hheading : '\n' ∉ heading.toList) (hc : IsProper c) :
    '\n' ∉ contextLine heading c := by
  simp [contextLine, hheading, newline_notMem_write hc]

/-- The last line of a text and what stands before it. -/
theorem lastLine_inj {α : Type} [DecidableEq α] {a b x y : List α} {newline : α} (hx : newline ∉ x)
    (hy : newline ∉ y) (h : a ++ newline :: x = b ++ newline :: y) : a = b ∧ x = y := by
  have hplain : ∀ {x : List α}, newline ∉ x → ∀ c ∈ x.reverse, (c != newline) = true := by
    rintro x hx c hc
    refine bne_iff_ne.2 ?_
    rintro rfl
    exact hx (List.mem_reverse.1 hc)
  have hreverse : x.reverse ++ newline :: a.reverse = y.reverse ++ newline :: b.reverse := by
    simpa using congrArg List.reverse h
  obtain ⟨hline, hbefore⟩ := append_inj_of_forall (hplain hx) (hplain hy) (by simp) (by simp) hreverse
  exact ⟨List.reverse_inj.1 (List.cons.inj hbefore).2, List.reverse_inj.1 hline⟩

/-- The code points behind a prompt. -/
def closing (heading : String) (c : Json) : List Nat := (RawText.formed ("\"" ++ contextText heading c)).codes

/-- A question with a configuration ends with a brace, one without ends with a quote. -/
theorem closing_ne (h : ms ≠ []) : p.codes ++ closing heading .null ≠ q.codes ++ closing heading (.obj ms) := by
  intro heq
  have hlast := congrArg List.getLast? heq
  simp [closing, RawText.codes, contextText_null, contextText_obj h, contextLine, write, List.getLast?_cons] at hlast

theorem closing_obj (h : ms ≠ []) (p : RawText) : p.codes ++ closing heading (.obj ms) =
    (p.codes ++ ['"'.toNat, '\n'.toNat]) ++ '\n'.toNat :: (contextLine heading (.obj ms)).map Char.toNat := by
  simp [closing, RawText.codes, contextText_obj h]

/-- Behind whatever a question opens with, the prompt and the configuration can be told from it. -/
theorem parts_inj {opening : String} (hheading : '\n' ∉ heading.toList) (hc : IsContext c) (hd : IsContext d)
    (h : (opening : RawText) ++ p ++ "\"" ++ contextText heading c = opening ++ q ++ "\"" ++ contextText heading d) :
    p = q ∧ c = d := by
  have hinj : Function.Injective Char.toNat := fun _ _ => Char.toNat_inj.1
  have hformed : p.isFormed = q.isFormed := by
    simpa [RawText.isFormed_append] using congrArg RawText.isFormed h
  have hcodes : p.codes ++ closing heading c = q.codes ++ closing heading d := by
    have hcodes := congrArg RawText.codes h
    simp only [RawText.codes_append, List.append_assoc] at hcodes
    simpa [closing, RawText.codes] using List.append_cancel_left hcodes
  cases hc with
  | none =>
    cases hd with
    | none => exact ⟨RawText.eq_of_codes hformed (List.append_cancel_right hcodes), rfl⟩
    | given hns _ => exact absurd hcodes (closing_ne hns)
  | @given ms hms hc =>
    cases hd with
    | none => exact absurd hcodes.symm (closing_ne hms)
    | @given ns hns hd =>
      rw [closing_obj hms, closing_obj hns] at hcodes
      have hnewline : ∀ {c}, IsProper c → '\n'.toNat ∉ (contextLine heading c).map Char.toNat := fun hc hmem =>
        newline_notMem_contextLine hheading hc ((List.mem_map_of_injective hinj).1 hmem)
      obtain ⟨hprompt, hline⟩ := lastLine_inj (hnewline hc) (hnewline hd) hcodes
      have hline := List.map_injective_iff.2 hinj hline
      have hwrite : write (.obj ms) = write (.obj ns) := by simpa [contextLine] using hline
      exact ⟨RawText.eq_of_codes hformed (List.append_cancel_right hprompt), write_inj hc hd hwrite⟩

/-- Either question is made of one prompt and one configuration only, whatever stands in the prompt: none can be made
to look like another prompt with another configuration. -/
theorem question_parts (hc : IsContext c) (hd : IsContext d) (p q : RawText) :
    (suggestionQuestion p c = suggestionQuestion q d ↔ p = q ∧ c = d) ∧
    (contractQuestion p c = contractQuestion q d ↔ p = q ∧ c = d) := by
  refine ⟨⟨fun h => ?_, ?_⟩, ⟨fun h => ?_, ?_⟩⟩
  · unfold suggestionQuestion at h
    exact parts_inj (by decide) hc hd h
  · rintro ⟨rfl, rfl⟩
    rfl
  · unfold contractQuestion at h
    exact parts_inj (by decide) hc hd h
  · rintro ⟨rfl, rfl⟩
    rfl

/-- A prompt that goes on, behind a quote of its own, as a question with a configuration does. -/
theorem question_parts_forged :
    let d : Json := .obj [("note", .str "\"\n\\"), ("half", .illFormed [0xD83D]), ("items", .arr [.int (-1), .null])]
    IsContext .null ∧ IsContext d ∧
    suggestionQuestion ("x\"" ++ contextText "Current configuration" d) .null ≠ suggestionQuestion "x" d ∧
    contractQuestion ("x\"" ++ contextText "Additional context" d) .null ≠ contractQuestion "x" d := by
  intro d
  have hcodes : AreCodes [0xD83D] := ⟨by decide, .singleton _⟩
  have hhalf : IsProper (.illFormed [0xD83D]) := .text hcodes
  have hitems : IsProper (.arr [.int (-1), .null]) :=
    .arr (List.forall_mem_cons.2 ⟨.scalar rfl, by simpa using .scalar rfl⟩)
  have hd : IsContext d := .given (by simp) (.obj (by simp [RawText.json, isProper_str])
    (by simp [isProper_str, hhalf, hitems]))
  have hne : Json.null ≠ d := nofun
  obtain ⟨hsuggestion, -⟩ := question_parts .none hd ("x\"" ++ contextText "Current configuration" d) "x"
  obtain ⟨-, hcontract⟩ := question_parts .none hd ("x\"" ++ contextText "Additional context" d) "x"
  exact ⟨.none, hd, fun h => hne (hsuggestion.1 h).2, fun h => hne (hcontract.1 h).2⟩

end Solwright.Prompt
