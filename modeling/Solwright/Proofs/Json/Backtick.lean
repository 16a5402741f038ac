import Mathlib.Data.List.Infix
import Solwright.Proofs.Json.Spelling
import Solwright.Proofs.Text.Fence

/-! Backticks in the texts of JSON. Dropping the fences between two quotes leaves a text, which has
fewer backticks where there was a fence. A backtick can also be spelled by an escape, and no fence is
seen there. -/

namespace Solwright.Json

open Solwright.Text

/-- The code point of a backtick. -/
def backtick : Nat := '`'.toNat

/-- The code points of a fence. -/
def fenceCodes : List Nat := fence.map Char.toNat

theorem fenceCodes_eq : fenceCodes = [backtick, backtick, backtick] := by decide

theorem codes_fence : fence.reverse.map Char.toNat = [backtick, backtick, backtick] := by decide

theorem toNat_eq_backtick {c : Char} : c.toNat = backtick ↔ c = '`' := by
  rw [backtick, Char.toNat_inj]

theorem shownCode_eq_backtick {n : Nat} : shownCode n = '`' ↔ n = backtick := by
  constructor
  · intro h
    unfold shownCode at h
    split at h
    · cases h
    · by_cases hn : n.isValidChar
      · rw [Char.ofNat, dif_pos hn] at h
        exact congrArg Char.toNat h
      · rw [Char.ofNat, dif_neg hn] at h
        cases h
  · rintro rfl
    decide

theorem count_shownCodes (ns : List Nat) : (shownCodes ns).count '`' = ns.count backtick := by
  induction ns with
  | nil => rfl
  | cons n ns ih =>
    rw [shownCodes] at ih ⊢
    rw [List.map_cons, List.count_cons, List.count_cons, ih]
    simp [shownCode_eq_backtick]

theorem eq_fenceCodes {ns : List Nat} (h : shownCodes ns = fence) : ns = fenceCodes := by
  rw [fence_eq] at h
  simp only [shownCodes, List.map_eq_cons_iff, List.map_eq_nil_iff, shownCode_eq_backtick] at h
  obtain ⟨_, _, rfl, rfl, _, _, rfl, rfl, _, _, rfl, rfl, rfl⟩ := h
  exact fenceCodes_eq.symm

theorem fence_infix_shownCodes {ns : List Nat} : fence <:+: shownCodes ns ↔ fenceCodes <:+: ns := by
  constructor
  · rintro ⟨a, b, h⟩
    obtain ⟨k, l, rfl, hk, -⟩ := List.map_eq_append_iff.1 h.symm
    obtain ⟨k, m, rfl, -, hm⟩ := List.map_eq_append_iff.1 hk
    rw [eq_fenceCodes hm]
    exact ⟨k, l, rfl⟩
  · intro h
    have hfence : fenceCodes.map shownCode = fence := by
      rw [fenceCodes_eq, fence_eq]
      decide
    rw [← hfence]
    exact h.map shownCode

theorem count_pushUnit (n : Nat) (ns : List Nat) :
    (pushUnit n ns).count backtick = ns.count backtick + [n].count backtick := by
  cases ns with
  | nil => simp [pushUnit]
  | cons h ns =>
    rw [pushUnit]
    split
    next hpair =>
      -- neither half of a pair is a backtick, nor is the character they make
      simp only [Bool.and_eq_true, isHighHalf, isLowHalf, decide_eq_true_eq] at hpair
      have hb : backtick = 96 := rfl
      have hh : h ≠ backtick := by omega
      have hn : n ≠ backtick := by omega
      have hpaired : 0x10000 + (h - 0xD800) * 0x400 + (n - 0xDC00) ≠ backtick := by omega
      simp [hh, hn, hpaired]
    next => simp [List.count_cons]

theorem ne_of_hexValue? {c : Char} {n : Nat} (h : hexValue? c = some n) :
    c ≠ '`' ∧ c ≠ '"' ∧ c ≠ '\\' := by
  refine ⟨?_, ?_, ?_⟩ <;> rintro rfl <;> cases h

theorem hexValue?_of_unit? {a b c d : Char} {n : Nat} (h : unit? a b c d = some n) :
    ∀ e ∈ [a, b, c, d], ∃ n, hexValue? e = some n := by
  simp only [unit?, Option.bind_eq_bind, Option.bind_eq_some_iff] at h
  obtain ⟨w, hw, x, hx, y, hy, z, hz, -⟩ := h
  simp [hw, hx, hy, hz]

/-- An escape holds no backtick. -/
theorem backtick_notMem_of_unit? {a b c d : Char} {n : Nat} (h : unit? a b c d = some n) :
    '`' ∉ ['\\', 'u', a, b, c, d] := by
  intro hmem
  rcases List.mem_cons.1 hmem with h' | hmem
  · cases h'
  rcases List.mem_cons.1 hmem with h' | hmem
  · cases h'
  obtain ⟨n, hn⟩ := hexValue?_of_unit? h '`' hmem
  exact (ne_of_hexValue? hn).1 rfl

theorem ne_of_escaped? {c e : Char} (h : escaped? c = some e) : c ≠ '`' ∧ e ≠ '`' := by
  have hcases : c ∈ ['"', '\\', '/', 'b', 'f', 'n', 'r', 't'] := by
    by_contra hc
    simp only [List.mem_cons, List.not_mem_nil, or_false, not_or] at hc
    obtain ⟨h1, h2, h3, h4, h5, h6, h7, h8⟩ := hc
    simp [escaped?, h1, h2, h3, h4, h5, h6, h7, h8] at h
  simp only [List.mem_cons, List.not_mem_nil, or_false] at hcases
  rcases hcases with rfl | rfl | rfl | rfl | rfl | rfl | rfl | rfl <;> cases h <;> decide

theorem backtick_notMem_of_escaped? {c e : Char} (h : escaped? c = some e) : '`' ∉ ['\\', c] := by
  simpa using (ne_of_escaped? h).1.symm

/-- Characters that stand for themselves are read one by one. -/
theorem Spells.skip {u s : List Char} {ns ms : List Nat} (hu : ∀ c ∈ u, isFencing c = true)
    (h : Spells (u ++ s) ns ms) : Spells s (u.reverse.map Char.toNat ++ ns) ms := by
  induction u generalizing ns with
  | nil => exact h
  | cons c u ih =>
    have hc := hu c List.mem_cons_self
    generalize hbody : c :: u ++ s = body at h
    cases h with
    | nil => cases hbody
    | char hquote hslash hlow hs =>
      obtain ⟨rfl, rfl⟩ := List.cons.inj hbody
      simpa using ih (fun d hd => hu d (List.mem_cons_of_mem c hd)) hs
    | escape =>
      obtain ⟨rfl, -⟩ := List.cons.inj hbody
      cases hc
    | unit =>
      obtain ⟨rfl, -⟩ := List.cons.inj hbody
      cases hc

theorem isFencing_of_mem_fence : ∀ c ∈ fence, isFencing c = true := by
  intro c hc
  obtain rfl : c = '`' := by simpa [fence_eq] using hc
  rfl

/-- Dropping fences from a text leaves a text. It has no more backticks, and fewer where there was a
fence. -/
theorem Spells.unfence {body : List Char} {ns ms : List Nat} (h : Spells body ns ms) (ns' : List Nat) :
    ∃ ms', Spells (unfenced body) ns' ms' ∧
      ms'.count backtick + ns.count backtick ≤ ms.count backtick + ns'.count backtick ∧
      (fence <:+: body →
        ms'.count backtick + ns.count backtick < ms.count backtick + ns'.count backtick) := by
  induction hn : body.length using Nat.strongRecOn generalizing body ns ns' with
  | ind n ih =>
    subst hn
    by_cases hp : fence <+: body
    · obtain ⟨u, rest, rfl, hu, hdrop⟩ := unfenced_of_fence hp
      have hlen : rest.length < (fence ++ (u ++ rest)).length := by
        simp only [fence_eq, List.length_append, List.length_cons]
        omega
      rw [← List.append_assoc] at h
      have hrest := h.skip fun c hc => (List.mem_append.1 hc).elim (isFencing_of_mem_fence c) (hu c)
      obtain ⟨ms', hs, hle, -⟩ := ih _ hlen hrest ns' rfl
      have hcount : 3 + ns.count backtick ≤
          (((fence ++ u).reverse.map Char.toNat) ++ ns).count backtick := by
        rw [List.reverse_append, List.map_append, codes_fence, List.count_append, List.count_append]
        simp only [List.count_cons_self, List.count_nil]
        omega
      refine ⟨ms', by rwa [hdrop], ?_, fun _ => ?_⟩ <;> omega
    · cases h with
      | nil => exact ⟨ns', .nil, Nat.le_of_eq (Nat.add_comm _ _), fun h => absurd h.length_le (by decide)⟩
      | @char c s ns ms hquote hslash hlow hs =>
        obtain ⟨ms', hs', hle, hlt⟩ := ih _ (by simp) hs (c.toNat :: ns') rfl
        rw [List.count_cons, List.count_cons] at hle hlt
        refine ⟨ms', ?_, by omega, fun hf => ?_⟩
        · rw [unfenced_of_no_fence hp]
          exact .char hquote hslash hlow hs'
        · have := hlt ((List.infix_cons_iff.1 hf).resolve_left hp)
          omega
      | @escape c e s ns ms hu he hs =>
        obtain ⟨ms', hs', hle, hlt⟩ := ih _ (by simp only [List.length_cons]; omega) hs (e.toNat :: ns') rfl
        rw [List.count_cons, List.count_cons] at hle hlt
        have htick := backtick_notMem_of_escaped? he
        refine ⟨ms', ?_, by omega, fun hf => ?_⟩
        · rw [show '\\' :: c :: s = ['\\', c] ++ s from rfl, unfenced_append htick]
          exact .escape hu he hs'
        · have := hlt (isInfix_of_append htick hf)
          omega
      | @unit a b c d m s ns ms hm hs =>
        obtain ⟨ms', hs', hle, hlt⟩ := ih _ (by simp only [List.length_cons]; omega) hs (pushUnit m ns') rfl
        rw [count_pushUnit, count_pushUnit] at hle hlt
        have htick := backtick_notMem_of_unit? hm
        refine ⟨ms', ?_, by omega, fun hf => ?_⟩
        · rw [show '\\' :: 'u' :: a :: b :: c :: d :: s = ['\\', 'u', a, b, c, d] ++ s from rfl,
            unfenced_append htick]
          exact .unit hm hs'
        · have := hlt (isInfix_of_append htick hf)
          omega

theorem mem_pushUnit (n : Nat) (ns : List Nat) {m : Nat} (h : isHighHalf m = false) (k : List Nat) :
    ∃ k', pushUnit n (k ++ m :: ns) = k' ++ m :: ns := by
  cases k with
  | nil => exact ⟨[n], by simp [pushUnit, h]⟩
  | cons j k =>
    rw [List.cons_append, pushUnit]
    split
    · exact ⟨_ :: k, rfl⟩
    · exact ⟨n :: j :: k, rfl⟩

/-- What was read stays from a code point on that is no first half of a pair. -/
theorem Spells.stays {body : List Char} {ns ms : List Nat} {m : Nat} {k : List Nat}
    (h : Spells body (k ++ m :: ns) ms) (hm : isHighHalf m = false) : ∃ k', ms = k' ++ m :: ns := by
  generalize hl : k ++ m :: ns = l at h
  induction h generalizing k with
  | nil => exact ⟨k, hl.symm⟩
  | @char c s l ms hquote hslash hlow hs ih => exact ih (k := c.toNat :: k) (by rw [← hl]; rfl)
  | @escape c e s l ms hu he hs ih => exact ih (k := e.toNat :: k) (by rw [← hl]; rfl)
  | @unit a b c d n s l ms hn hs ih =>
    obtain ⟨k', hk⟩ := mem_pushUnit n ns hm k
    exact ih (k := k') (by rw [← hl, hk])

/-- A fence between quotes is one of the text they hold. -/
theorem Spells.codes_of_fence {body : List Char} {ns ms : List Nat} (h : Spells body ns ms)
    (hf : fence <:+: body) : fenceCodes <:+: ms := by
  induction h with
  | nil => exact absurd hf.length_le (by decide)
  | @char c s ns ms hquote hslash hlow hs ih =>
    rcases List.infix_cons_iff.1 hf with hp | hf
    · obtain ⟨t, ht⟩ := hp
      have hskip : Spells (fence ++ t) ns ms := ht ▸ .char hquote hslash hlow hs
      have hread := hskip.skip isFencing_of_mem_fence
      rw [codes_fence] at hread
      obtain ⟨k, hk⟩ := hread.stays (k := []) rfl
      exact ⟨k, ns, by rw [hk, fenceCodes_eq, List.append_assoc]; rfl⟩
    · exact ih hf
  | escape hu he hs ih => exact ih (isInfix_of_append (backtick_notMem_of_escaped? he) hf)
  | unit hn hs ih => exact ih (isInfix_of_append (backtick_notMem_of_unit? hn) hf)

/-- Whether an escape in a text spells a backtick. -/
def spellsBacktick : List Char → Bool
  | '\\' :: 'u' :: a :: b :: c :: d :: s => unit? a b c d == some backtick || spellsBacktick s
  | '\\' :: _ :: s => spellsBacktick s
  | _ :: s => spellsBacktick s
  | [] => false

theorem spellsBacktick_cons {c : Char} (hc : c ≠ '\\') (s : List Char) :
    spellsBacktick (c :: s) = spellsBacktick s := by
  rw [spellsBacktick]
  · exact fun _ _ _ _ _ h => absurd h hc
  · exact fun _ _ h => absurd h hc

theorem spellsBacktick_append {a : List Char} (ha : '\\' ∉ a) (s : List Char) :
    spellsBacktick (a ++ s) = spellsBacktick s := by
  induction a with
  | nil => rfl
  | cons c a ih =>
    rw [List.cons_append, spellsBacktick_cons (List.ne_of_not_mem_cons ha).symm,
      ih (List.not_mem_of_not_mem_cons ha)]

theorem spellsBacktick_escape {c : Char} (hc : c ≠ 'u') (s : List Char) :
    spellsBacktick ('\\' :: c :: s) = spellsBacktick s := by
  rw [spellsBacktick]
  exact fun _ _ _ _ _ h => absurd h hc

theorem length_of_spellsBacktick {s : List Char} (h : spellsBacktick s = true) : 6 ≤ s.length := by
  fun_induction spellsBacktick s with
  | case1 => simp
  | case2 c s _ ih => exact Nat.le_succ_of_le (Nat.le_succ_of_le (ih h))
  | case3 c s _ _ ih => exact Nat.le_succ_of_le (ih h)
  | case4 => cases h

/-- An escape is seen whatever follows. -/
theorem spellsBacktick_mono {s : List Char} (h : spellsBacktick s = true) (x : List Char) :
    spellsBacktick (s ++ x) = true := by
  fun_induction spellsBacktick s with
  | case1 a b c d s ih =>
    simp only [List.cons_append, spellsBacktick, Bool.or_eq_true] at h ⊢
    exact h.imp_right ih
  | case2 c s hshort ih =>
    by_cases hc : c = 'u'
    · subst hc
      have hlen := length_of_spellsBacktick h
      rcases s with _ | ⟨a, _ | ⟨b, _ | ⟨c, _ | ⟨d, s⟩⟩⟩⟩
      · simp at hlen
      · simp at hlen
      · simp at hlen
      · simp at hlen
      · exact absurd rfl (hshort a b c d s rfl)
    · rw [List.cons_append, List.cons_append, spellsBacktick_escape hc]
      exact ih h
  | case3 c s hunit hescape ih =>
    by_cases hc : c = '\\'
    · subst hc
      cases s with
      | nil => cases h
      | cons d s => exact absurd rfl (hescape d s rfl)
    · rw [List.cons_append, spellsBacktick_cons hc]
      exact ih h
  | case4 => cases h

theorem Spells.spellsBacktick_append {body : List Char} {ns ms : List Nat} (h : Spells body ns ms)
    (s : List Char) : spellsBacktick (body ++ s) = (spellsBacktick body || spellsBacktick s) := by
  induction h with
  | nil => rfl
  | char hquote hslash hlow hs ih =>
    rw [List.cons_append, spellsBacktick_cons hslash, spellsBacktick_cons hslash, ih]
  | escape hu he hs ih =>
    rw [List.cons_append, List.cons_append, spellsBacktick_escape hu, spellsBacktick_escape hu, ih]
  | unit hn hs ih => simp only [List.cons_append, spellsBacktick, ih, Bool.or_assoc]

/-- The backticks at the end of what was read are the last characters it was read from. -/
def Tracks (pre : List Char) (ns : List Nat) : Prop :=
  ∀ j, List.replicate j backtick <+: ns → List.replicate j '`' <:+ pre

theorem tracks_of_ne {pre : List Char} {n : Nat} {ns : List Nat} (hn : n ≠ backtick) :
    Tracks pre (n :: ns) := by
  intro j hj
  cases j with
  | zero => exact List.nil_suffix
  | succ j =>
    rw [List.replicate_succ, List.cons_prefix_cons] at hj
    exact absurd hj.1.symm hn

theorem Tracks.char {pre : List Char} {ns : List Nat} (h : Tracks pre ns) (c : Char) :
    Tracks (pre ++ [c]) (c.toNat :: ns) := by
  intro j hj
  cases j with
  | zero => exact List.nil_suffix
  | succ j =>
    rw [List.replicate_succ, List.cons_prefix_cons, eq_comm, toNat_eq_backtick] at hj
    obtain ⟨rfl, hj⟩ := hj
    obtain ⟨a, rfl⟩ := h j hj
    exact ⟨a, by rw [List.replicate_succ', List.append_assoc]⟩

theorem infix_of_ne {n : Nat} {ns : List Nat} (hn : n ≠ backtick) (h : fenceCodes <:+: n :: ns) :
    fenceCodes <:+: ns := by
  rw [List.infix_cons_iff] at h
  refine h.resolve_left fun hp => ?_
  rw [fenceCodes_eq, List.cons_prefix_cons] at hp
  exact hn hp.1.symm

theorem head_pushUnit {n : Nat} (hn : n ≠ backtick) (ns : List Nat) :
    ∃ m k, pushUnit n ns = m :: k ∧ m ≠ backtick ∧ k <:+ ns := by
  cases ns with
  | nil => exact ⟨n, [], rfl, hn, List.suffix_rfl⟩
  | cons h ns =>
    rw [pushUnit]
    split
    next =>
      have hb : backtick = 96 := rfl
      exact ⟨_, ns, rfl, by omega, List.suffix_cons h ns⟩
    next => exact ⟨n, h :: ns, rfl, hn, List.suffix_rfl⟩

/-- Where no escape spells a backtick, a fence of the text is one between the quotes. -/
theorem Spells.fence_of_codes {body pre : List Char} {ns ms : List Nat} (h : Spells body ns ms)
    (hb : spellsBacktick body = false) (ht : Tracks pre ns) (hf : fenceCodes <:+: ms) :
    fenceCodes <:+: ns ∨ fence <:+: pre ++ body := by
  induction h generalizing pre with
  | nil => exact .inl hf
  | @char c s ns ms hquote hslash hlow hs ih =>
    rw [spellsBacktick_cons hslash] at hb
    have hih := ih hb (ht.char c) hf
    rw [List.append_assoc] at hih
    refine hih.elim (fun hns => ?_) .inr
    rcases List.infix_cons_iff.1 hns with hp | hns
    · have hsuf : Text.fence <:+ pre ++ [c] := ht.char c 3 hp
      rw [List.append_cons]
      exact .inr (hsuf.isInfix.trans (List.prefix_append _ s).isInfix)
    · exact .inl hns
  | @escape c e s ns ms hu he hs ih =>
    rw [spellsBacktick_escape hu] at hb
    have hne : e.toNat ≠ backtick := by
      rw [Ne, toNat_eq_backtick]
      exact (ne_of_escaped? he).2
    have hih := @ih (pre ++ ['\\', c]) hb (tracks_of_ne hne) hf
    rw [List.append_assoc] at hih
    exact hih.imp_left (infix_of_ne hne)
  | @unit a b c d n s ns ms hn hs ih =>
    simp only [spellsBacktick, hn, Bool.or_eq_false_iff, beq_eq_false_iff_ne, ne_eq,
      Option.some.injEq] at hb
    obtain ⟨hne, hb⟩ := hb
    obtain ⟨m, k, hpush, hm, hk⟩ := head_pushUnit hne ns
    rw [hpush] at ih
    have hih := @ih (pre ++ ['\\', 'u', a, b, c, d]) hb (tracks_of_ne hm) hf
    rw [List.append_assoc] at hih
    exact hih.imp_left fun hi => (infix_of_ne hm hi).trans hk.isInfix

end Solwright.Json
