import Solwright.Json.Token

/-! How the characters between the quotes of a text spell its code points. -/

namespace Solwright.Json

open Solwright.Text

/-- What characters between quotes make of the code points read so far, the last one first. -/
inductive Spells : List Char → List Nat → List Nat → Prop
  | nil {ns : List Nat} : Spells [] ns ns
  | char {c : Char} {s : List Char} {ns ms : List Nat} : c ≠ '"' → c ≠ '\\' → 0x20 ≤ c.toNat →
      Spells s (c.toNat :: ns) ms → Spells (c :: s) ns ms
  | escape {c e : Char} {s : List Char} {ns ms : List Nat} : c ≠ 'u' → escaped? c = some e →
      Spells s (e.toNat :: ns) ms → Spells ('\\' :: c :: s) ns ms
  | unit {a b c d : Char} {n : Nat} {s : List Char} {ns ms : List Nat} : unit? a b c d = some n →
      Spells s (pushUnit n ns) ms → Spells ('\\' :: 'u' :: a :: b :: c :: d :: s) ns ms

theorem spells_of_quotedText {start p next : Nat} {ns codes : List Nat} {s rest : List Char}
    (h : quotedText start p ns s = .ok (codes, rest, next)) : ∃ body ms, Spells body ns ms ∧
      s = body ++ '"' :: rest ∧ codes = ms.reverse ∧ next = p + body.length + 1 := by
  fun_induction quotedText start p ns s with
  | case1 => cases h
  | case2 p ns s =>
    cases h
    exact ⟨[], ns, .nil, rfl, rfl, rfl⟩
  | case3 => cases h
  | case4 => cases h
  | case5 p ns a b c d n e s hu ih =>
    obtain ⟨body, ms, hb, hs, hc, hn⟩ := ih h
    refine ⟨_, ms, .unit hu hb, by rw [hs]; rfl, hc, ?_⟩
    simp only [List.length_cons]
    omega
  | case6 => cases h
  | case7 p ns c s _ hc e he ih =>
    obtain ⟨body, ms, hb, hs, hcodes, hn⟩ := ih h
    refine ⟨_, ms, .escape (by simpa using hc) he hb, by rw [hs]; rfl, hcodes, ?_⟩
    simp only [List.length_cons]
    omega
  | case8 => cases h
  | case9 => cases h
  | case10 => cases h
  | case11 p ns c s h1 h2 h3 h4 hc ih =>
    obtain ⟨body, ms, hb, hs, hcodes, hn⟩ := ih h
    have hslash : c ≠ '\\' := by
      intro hc
      cases s with
      | nil => exact h4 hc rfl
      | cons d s => exact h3 d s hc rfl
    refine ⟨_, ms, .char h1 hslash (by omega) hb, by rw [hs]; rfl, hcodes, ?_⟩
    simp only [List.length_cons]
    omega

theorem Spells.quotedText {start : Nat} {ns ms : List Nat} {body : List Char}
    (h : Spells body ns ms) (p : Nat) (rest : List Char) :
    quotedText start p ns (body ++ '"' :: rest) = .ok (ms.reverse, rest, p + body.length + 1) := by
  induction h generalizing p with
  | nil => simp [Json.quotedText]
  | char hq hb hc hs ih =>
    rw [List.cons_append, Json.quotedText, if_neg (by omega), ih]
    · simp only [List.length_cons]
      congr 3
      omega
    · exact hq
    · exact fun _ _ _ _ _ h => absurd h hb
    · exact fun _ _ h => absurd h hb
    · exact fun h => absurd h hb
  | @escape c e s ns ms hu he hs ih =>
    have hu' : (c == 'u') = false := by simpa using hu
    rw [List.cons_append, List.cons_append, Json.quotedText, hu', he]
    · simp only [Bool.false_eq_true, if_false, ih, List.length_cons]
      congr 3
      omega
    · exact fun _ _ _ _ _ h => absurd h hu
  | @unit a b c d n s ns ms hu hs ih =>
    have hcons : ∃ e t, s ++ '"' :: rest = e :: t := by
      cases s with
      | nil => exact ⟨_, _, rfl⟩
      | cons e s => exact ⟨_, _, rfl⟩
    obtain ⟨e, t, ht⟩ := hcons
    have ih := ih (p + 6)
    rw [ht] at ih
    simp only [List.cons_append, ht]
    rw [Json.quotedText.eq_5 _ _ _ _ _ _ _ _ _ _ hu, ih]
    simp only [List.length_cons]
    congr 3
    omega

end Solwright.Json
