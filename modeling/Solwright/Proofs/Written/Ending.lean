import Solwright.Proofs.Json.Limits
import Solwright.Proofs.Json.Unfenced
import Solwright.Proofs.Number.Digits
import Solwright.Proofs.Schema.Accepted
import Solwright.Proofs.Text.Trim
import Solwright.Written.Reply

/-! How the reading of a reply ends. It gives a contract with code or a failure that says why there is
none, unless reading one of the texts that may be its object comes to a limit before one of them is an
object with code. The limit on digits is far away, that on nesting is the interpreter's. -/

namespace Solwright

/-- A fault that is a limit of reading. -/
def Fault.IsLimit (f : Fault) : Prop :=
  (∃ reason, f = .tooDeep reason) ∨ ∃ reason, f = .badValue reason

theorem Fault.not_isLimit_failure (e : Failure) : ¬(Fault.failure e).IsLimit := by
  rintro (⟨reason, h⟩ | ⟨reason, h⟩)
  · cases h
  · cases h

theorem Fault.isLimit_ofJson {e : Json.Fault} (h : e.syntax? = none) (s : List Char) :
    (Fault.ofJson .badValue s e).IsLimit := by
  cases e with
  | nesting => exact .inl ⟨_, rfl⟩
  | longNumeral => exact .inr ⟨_, rfl⟩
  | _ => cases h

namespace WrittenContract

open Solwright.Text Solwright.Json Solwright.Number Schema

variable {limit : Nat} {read : List Char → Except Json.Fault Json}

/-- A text is an object with code. -/
def HoldsCode (read : List Char → Except Json.Fault Json) (t : List Char) : Prop :=
  ∃ ms, read t = .ok (.obj ms) ∧ (ms.lookup (.formed "contractCode")).isSome = true

/-- One of some texts comes to a limit, and no text before it is an object with code. -/
def ReachesLimit (read : List Char → Except Json.Fault Json) (ts : List (List Char)) : Prop :=
  ∃ a t b, ts = a ++ t :: b ∧ (∀ u ∈ a, ¬HoldsCode read u) ∧ MeetsLimit read t

theorem codeMembers?_obj_eq_some {ms ns : List (RawText × Json)} (h : codeMembers? (.obj ms) = some ns) :
    ns = ms ∧ (ms.lookup (.formed "contractCode")).isSome = true := by
  unfold codeMembers? at h
  split at h
  next hcode => exact ⟨(Option.some.inj h).symm, hcode⟩
  next => cases h

theorem codeMembers?_eq_some {v : Json} {ms : List (RawText × Json)} :
    codeMembers? v = some ms ↔ v = .obj ms ∧ (ms.lookup (.formed "contractCode")).isSome = true := by
  constructor
  · intro h
    cases v with
    | obj ns =>
      obtain ⟨rfl, hcode⟩ := codeMembers?_obj_eq_some h
      exact ⟨rfl, hcode⟩
    | _ => cases h
  · rintro ⟨rfl, hcode⟩
    exact if_pos hcode

instance (t : List Char) : Decidable (HoldsCode read t) :=
  match h : read t with
  | .ok v => decidable_of_iff ((codeMembers? v).isSome = true) (by
      rw [Option.isSome_iff_exists]
      constructor
      · rintro ⟨ms, hms⟩
        obtain ⟨rfl, hcode⟩ := codeMembers?_eq_some.1 hms
        exact ⟨ms, h, hcode⟩
      · rintro ⟨ms, hread, hcode⟩
        rw [h] at hread
        exact ⟨ms, codeMembers?_eq_some.2 ⟨Except.ok.inj hread, hcode⟩⟩)
  | .error _ => .isFalse (by
      rintro ⟨ms, hread, -⟩
      rw [h] at hread
      cases hread)

/-- The first text that is an object with code gives its members. -/
theorem firstObject?_of_code {t : List Char} {ms : List (RawText × Json)}
    (hread : read t = .ok (.obj ms)) (hcode : (ms.lookup (.formed "contractCode")).isSome = true)
    (ts : List (List Char)) : firstObject? read (t :: ts) = .ok (some ms) := by
  simp only [firstObject?, hread, codeMembers?_eq_some.2 ⟨rfl, hcode⟩]

theorem firstObject?_of_meetsLimit {t : List Char} (h : MeetsLimit read t) (ts : List (List Char)) :
    ∃ f, firstObject? read (t :: ts) = .error f ∧ f.IsLimit := by
  obtain ⟨e, hread, hlimit⟩ := h
  refine ⟨.ofJson .badValue t e, ?_, Fault.isLimit_ofJson hlimit t⟩
  simp only [firstObject?, hread, hlimit, Option.isSome_none, Bool.false_eq_true, if_false]

/-- A text that is no object with code is passed over unless it comes to a limit. -/
theorem firstObject?_of_passed {t : List Char} (hcode : ¬HoldsCode read t) (hlimit : ¬MeetsLimit read t)
    (ts : List (List Char)) : firstObject? read (t :: ts) = firstObject? read ts := by
  rw [firstObject?]
  cases hread : read t with
  | ok v =>
    cases hv : codeMembers? v with
    | none => simp only [hv]
    | some ms =>
      obtain ⟨rfl, hms⟩ := codeMembers?_eq_some.1 hv
      exact absurd ⟨ms, hread, hms⟩ hcode
  | error e =>
    have hpassed : e.syntax?.isSome = true := by
      rw [Option.isSome_iff_ne_none]
      exact fun hnone => hlimit ⟨e, hread, hnone⟩
    simp only [hpassed, if_true]

theorem ReachesLimit.of_passed {t : List Char} {ts : List (List Char)} (h : ReachesLimit read (t :: ts))
    (ht : ¬MeetsLimit read t) : ¬HoldsCode read t ∧ ReachesLimit read ts := by
  obtain ⟨a, u, b, hts, ha, hu⟩ := h
  rcases List.cons_eq_append_iff.1 hts with ⟨rfl, hcons⟩ | ⟨a, rfl, rfl⟩
  · obtain ⟨rfl, -⟩ := List.cons.inj hcons
    exact absurd hu ht
  · exact ⟨ha t List.mem_cons_self, a, u, b, rfl, fun v hv => ha v (List.mem_cons_of_mem t hv), hu⟩

theorem ReachesLimit.cons {t : List Char} {ts : List (List Char)} (ht : ¬HoldsCode read t)
    (h : ReachesLimit read ts) : ReachesLimit read (t :: ts) := by
  obtain ⟨a, u, b, rfl, ha, hu⟩ := h
  exact ⟨t :: a, u, b, rfl, List.forall_mem_cons.2 ⟨ht, ha⟩, hu⟩

/-- Going through some texts ends at a limit where one is reached. -/
theorem firstObject?_of_reachesLimit {ts : List (List Char)} (h : ReachesLimit read ts) :
    ∃ f, firstObject? read ts = .error f ∧ f.IsLimit := by
  induction ts with
  | nil =>
    obtain ⟨a, u, b, hts, -⟩ := h
    simp at hts
  | cons t ts ih =>
    by_cases ht : MeetsLimit read t
    · exact firstObject?_of_meetsLimit ht ts
    · obtain ⟨hcode, hrest⟩ := h.of_passed ht
      rw [firstObject?_of_passed hcode ht]
      exact ih hrest

/-- Where none is reached, it ends with an object, or with none when no text is an object with code. -/
theorem firstObject?_of_not_reachesLimit {ts : List (List Char)} (h : ¬ReachesLimit read ts) :
    (∃ ms, firstObject? read ts = .ok (some ms) ∧ ∃ t ∈ ts, HoldsCode read t) ∨
      firstObject? read ts = .ok none ∧ ∀ t ∈ ts, ¬HoldsCode read t := by
  induction ts with
  | nil => exact .inr ⟨rfl, nofun⟩
  | cons t ts ih =>
    have ht : ¬MeetsLimit read t := fun ht => h ⟨[], t, ts, rfl, nofun, ht⟩
    by_cases hcode : HoldsCode read t
    · obtain ⟨ms, hread, hms⟩ := hcode
      exact .inl ⟨ms, firstObject?_of_code hread hms ts, t, List.mem_cons_self, ms, hread, hms⟩
    · rw [firstObject?_of_passed hcode ht]
      rcases ih fun hrest => h (.cons hcode hrest) with ⟨ms, hms, u, hu, hholds⟩ | ⟨hnone, hall⟩
      · exact .inl ⟨ms, hms, u, List.mem_cons_of_mem t hu, hholds⟩
      · exact .inr ⟨hnone, List.forall_mem_cons.2 ⟨hcode, hall⟩⟩

theorem ReachesLimit.exists_meets {ts : List (List Char)} (h : ReachesLimit read ts) :
    ∃ t ∈ ts, MeetsLimit read t := by
  obtain ⟨a, t, b, rfl, -, ht⟩ := h
  exact ⟨t, by simp, ht⟩

/-- Where no text is an object with code, any text may be the one that comes to a limit. -/
theorem reachesLimit_iff_exists {ts : List (List Char)} (h : ∀ t ∈ ts, ¬HoldsCode read t) :
    ReachesLimit read ts ↔ ∃ t ∈ ts, MeetsLimit read t := by
  refine ⟨ReachesLimit.exists_meets, ?_⟩
  rintro ⟨t, hmem, ht⟩
  obtain ⟨a, b, rfl⟩ := List.append_of_mem hmem
  exact ⟨a, t, b, rfl, fun u hu => h u (List.mem_append_left _ hu), ht⟩

section Code

variable {ms : List (RawText × Json)} {c : WrittenContract}

theorem code_ne_empty_of_ofMembers (h : ofMembers ms = .accept c) : c.code ≠ "" := by
  simp only [ofMembers, seq_eq_accept, map_eq_accept] at h
  obtain ⟨_, _, ⟨_, _, ⟨_, _, ⟨_, _, ⟨_, _, ⟨code, hcode, rfl⟩, -, rfl⟩, -, rfl⟩, -, rfl⟩, -, rfl⟩, -, rfl⟩ := h
  obtain ⟨_, _, -, hcode⟩ := exists_of_required hcode
  exact (someText_eq_accept.1 hcode).2

theorem code_withDeclaredName (c : WrittenContract) : c.withDeclaredName.code = c.code := by
  unfold withDeclaredName
  split <;> rfl

/-- The contract of an object has code, or the object is refused. -/
theorem ofReplyMembers_ends (ms : List (RawText × Json)) :
    (∃ c, ofReplyMembers ms = .ok c ∧ c.code ≠ "") ∨
      ∃ reason : String, ofReplyMembers ms = .error (.failure (.notInterpreted reason)) := by
  unfold ofReplyMembers
  split
  next c hc =>
    refine .inl ⟨_, rfl, ?_⟩
    rw [code_withDeclaredName]
    apply code_ne_empty_of_ofMembers
    cases hms : ofMembers ms with
    | ok d =>
      rw [hms] at hc
      exact congrArg _ (Except.ok.inj hc)
    | error ps =>
      rw [hms] at hc
      cases hc
  next => exact .inr ⟨_, rfl⟩

theorem mine_ends (text : String) : (∃ c, mine text = .ok c ∧ c.code ≠ "") ∨
    ∃ reason : String, mine text = .error (.failure (.notInterpreted reason)) := by
  unfold mine
  dsimp only
  split
  · exact .inr ⟨_, rfl⟩
  next hcode => exact .inl ⟨_, rfl, by simpa [mined] using hcode⟩

end Code

theorem dropMatchesFrom_sublist (f : List Char → Option (List Char)) (n : Nat) (s : List Char) :
    (dropMatchesFrom f n s).Sublist s := by
  fun_induction dropMatchesFrom f n s with
  | case1 => exact List.Sublist.refl []
  | case2 _ _ _ ih | case3 _ _ _ _ ih => exact ih.cons _
  | case4 _ _ _ ih => exact ih.cons_cons _

theorem upToLast?_append {last : Char} {u v : List Char} (hv : last ∉ v) :
    Mining.upToLast? last (u ++ last :: v) = some (u ++ [last]) := by
  have hdrop : (u ++ last :: v).reverse.dropWhile (· != last) = last :: u.reverse := by
    rw [List.reverse_append, List.reverse_cons, List.append_assoc, List.dropWhile_append_of_pos,
      List.singleton_append, List.dropWhile_cons_of_neg (by simp)]
    intro c hc
    rw [bne_iff_ne]
    rintro rfl
    exact hv (List.mem_reverse.1 hc)
  rw [Mining.upToLast?, hdrop]
  simp

theorem upToLast?_of_notMem {last : Char} {s : List Char} (h : last ∉ s) :
    Mining.upToLast? last s = none := by
  have hdrop : s.reverse.dropWhile (· != last) = [] := by
    rw [List.dropWhile_eq_nil_iff]
    intro c hc
    rw [bne_iff_ne]
    rintro rfl
    exact h (List.mem_reverse.1 hc)
  rw [Mining.upToLast?, hdrop]

/-- A text up to the last occurrence of a character ends with it, and no other one follows. -/
theorem upToLast?_eq_some_iff {last : Char} {s t : List Char} : Mining.upToLast? last s = some t ↔
    ∃ u v, t = u ++ [last] ∧ s = t ++ v ∧ last ∉ v := by
  constructor
  · intro h
    by_cases hmem : last ∈ s
    · obtain ⟨v, u, hsplit, hv⟩ := List.eq_append_cons_of_mem (List.mem_reverse.2 hmem)
      obtain rfl : s = u.reverse ++ last :: v.reverse := by
        rw [← List.reverse_inj, hsplit]
        simp
      have hv : last ∉ v.reverse := by simpa using hv
      rw [upToLast?_append hv] at h
      obtain rfl := Option.some.inj h
      exact ⟨u.reverse, v.reverse, rfl, by simp, hv⟩
    · rw [upToLast?_of_notMem hmem] at h
      cases h
  · rintro ⟨u, v, rfl, rfl, hv⟩
    rw [List.append_assoc]
    exact upToLast?_append hv

/-- A text that may be the object of a reply is made of characters of the reply. -/
theorem sublist_of_mem_candidates {s t : List Char} (h : t ∈ candidates s) : t.Sublist s := by
  rcases List.mem_cons.1 h with rfl | h
  · exact (trim_sublist _).trans (dropMatchesFrom_sublist _ 0 s)
  · obtain ⟨u, v, -, hspan, -⟩ := upToLast?_eq_some_iff.1 (Option.mem_toList.1 h)
    have hprefix : t <+: s.dropWhile (· != '\x7b') := ⟨v, hspan.symm⟩
    exact hprefix.sublist.trans (s.dropWhile_suffix _).sublist

/-- A reply with few digits and brackets reaches no limit. -/
theorem ReachesLimit.counts {s : List Char} (h : ReachesLimit (Json.read limit) (candidates s)) :
    digitLimit < s.countP Char.isDigit ∨ limit < s.countP isOpening := by
  obtain ⟨t, hmem, ht⟩ := h.exists_meets
  have hsub : t.Sublist s := sublist_of_mem_candidates hmem
  exact ht.counts.imp (Nat.lt_of_lt_of_le · hsub.countP_le) (Nat.lt_of_lt_of_le · hsub.countP_le)

theorem isBlank_of_isDigit {c : Char} (h : c.isDigit = true) : isBlank c = false := by
  have hdigit := toNat_of_isDigit h
  simp only [isBlank, Bool.or_eq_false_iff, Bool.and_eq_false_imp, decide_eq_true_eq, decide_eq_false_iff_not,
    beq_eq_false_iff_ne]
  omega

theorem isBlank_of_isOpening {c : Char} (h : isOpening c = true) : isBlank c = false := by
  simp only [isOpening, Bool.or_eq_true, beq_iff_eq] at h
  rcases h with rfl | rfl <;> decide

theorem not_reachesLimit_of_isBlank {s : List Char} (h : IsBlank s) :
    ¬ReachesLimit (Json.read limit) (candidates s) := by
  intro hlimit
  have hzero : ∀ {p : Char → Bool}, (∀ {c}, p c = true → isBlank c = false) → s.countP p = 0 := by
    intro p hp
    rw [List.countP_eq_zero]
    intro c hc hpc
    have hblank := h c hc
    rw [hp hpc] at hblank
    cases hblank
  have hcounts := hlimit.counts
  rw [hzero isBlank_of_isDigit, hzero isBlank_of_isOpening] at hcounts
  omega

/-- A reply with text in it is read as what its candidates give, and as what it gives away where they
give no object. -/
theorem ofReply_of_visible {s : List Char} (hs : ∃ c ∈ s, isBlank c = false) :
    ofReply limit (some (String.ofList s)) = match firstObject? (Json.read limit) (candidates s) with
      | .error f => .error f
      | .ok (some ms) => ofReplyMembers ms
      | .ok none => mine (String.ofList s) := by
  have hall : s.all isBlank = false := by simpa using hs
  rcases hfirst : firstObject? (Json.read limit) (candidates s) with f | _ | ms <;>
    simp only [ofReply, Option.getD_some, String.toList_ofList, hall, hfirst, Bool.false_eq_true, if_false]

/-- What a reply begins with, up to its first fence or white space, its first candidate begins with. -/
theorem stripFences_append {a : List Char} (hne : a ≠ []) (ha : ∀ c ∈ a, isBlank c = false)
    (htick : '`' ∉ a) (s : List Char) : ∃ b, b <+: unfenced s ∧ stripFences (a ++ s) = a ++ b := by
  obtain ⟨b, hb, htrim⟩ := trim_append_of_visible hne ha (unfenced s)
  refine ⟨b, hb, ?_⟩
  rw [stripFences, ← htrim, ← unfenced_append htick]
  rfl

theorem reachesLimit_of_first {s : List Char} (h : MeetsLimit read (stripFences s)) :
    ReachesLimit read (candidates s) :=
  ⟨[], stripFences s, (bracedSpan? s).toList, rfl, nofun, h⟩

/-- A reply that begins with digits reaches a limit if reading them does, whatever ends them. -/
theorem reachesLimit_of_digits {ds s : List Char} (hne : ds ≠ []) (hds : ∀ d ∈ ds, d.isDigit = true) (hs : Ends s)
    (hread : ∀ b, Ends b → MeetsLimit read (ds ++ b)) : ReachesLimit read (candidates (ds ++ s)) := by
  have htick : '`' ∉ ds := fun h => absurd (hds _ h) (by decide)
  obtain ⟨b, hb, hstrip⟩ := stripFences_append hne (fun d hd => isBlank_of_isDigit (hds d hd)) htick s
  apply reachesLimit_of_first
  rw [hstrip]
  refine hread b fun c hc => hs.unfence c ?_
  obtain ⟨t, ht⟩ := hb
  rw [← ht, List.head?_append, Option.mem_def.1 hc]
  rfl

/-- So does one that begins with opening brackets. -/
theorem reachesLimit_of_nested {k : Nat} (hk : k ≠ 0) (s : List Char)
    (hread : ∀ b, MeetsLimit read (List.replicate k '[' ++ b)) :
    ReachesLimit read (candidates (List.replicate k '[' ++ s)) := by
  have hne : List.replicate k '[' ≠ [] := by rwa [Ne, List.replicate_eq_nil_iff]
  have hblank : ∀ c ∈ List.replicate k '[', isBlank c = false := by
    intro c hc
    rw [List.eq_of_mem_replicate hc]
    decide
  have htick : '`' ∉ List.replicate k '[' := fun h => absurd (List.eq_of_mem_replicate h) (by decide)
  obtain ⟨b, -, hstrip⟩ := stripFences_append hne hblank htick s
  apply reachesLimit_of_first
  rw [hstrip]
  exact hread b

/-- Where no limit is reached, reading gives a contract with code or tells why there is none. -/
theorem ofReply_of_not_reachesLimit {reply : Option String}
    (h : ¬ReachesLimit (Json.read limit) (candidates (reply.getD "").toList)) :
    (∃ c, ofReply limit reply = .ok c ∧ c.code ≠ "") ∨
      ∃ reason : String, ofReply limit reply = .error (.failure (.notInterpreted reason)) := by
  unfold ofReply
  dsimp only
  split
  · exact .inr ⟨_, rfl⟩
  · rcases firstObject?_of_not_reachesLimit h with ⟨ms, hms, -⟩ | ⟨hnone, -⟩
    · simp only [hms]
      exact ofReplyMembers_ends ms
    · simp only [hnone]
      exact mine_ends _

theorem ofReply_of_reachesLimit {reply : Option String}
    (h : ReachesLimit (Json.read limit) (candidates (reply.getD "").toList)) :
    ∃ f, ofReply limit reply = .error f ∧ f.IsLimit := by
  have hblank : ¬(reply.getD "").toList.all isBlank = true := by
    intro hall
    exact not_reachesLimit_of_isBlank (List.all_eq_true.1 hall) h
  obtain ⟨f, hf, hlimit⟩ := firstObject?_of_reachesLimit h
  refine ⟨f, ?_, hlimit⟩
  unfold ofReply
  dsimp only
  rw [if_neg hblank, hf]

end WrittenContract

end Solwright
