import Solwright.Proofs.Json.Trimmed
import Solwright.Proofs.Text.Ascii
import Solwright.Proofs.Written.Description
import Solwright.Proofs.Written.Ending

/-! Reading a described contract back from a reply. The first candidate of a reply is read after its
fences are dropped, so texts with fences are lost where the reply is nothing but the object; where
there is prose around it, the second candidate is the object as it was written. -/

namespace Solwright.WrittenContract

open Solwright.Text Solwright.Json Reader

/-- A reply is read as the contract of a description. -/
def ReadsBack (limit : Nat) (s : List Char) (d : Description) : Prop :=
  ∃ c, ofReply limit (some (String.ofList s)) = .ok c ∧ d.Fits c

/-- Prose without braces and backticks. -/
def IsProse (s : List Char) : Prop :=
  ∀ c ∈ s, c ≠ '{' ∧ c ≠ '}' ∧ c ≠ '`'

/-- The replies that hold nothing but a text, on its own or inside a fence. -/
inductive Wraps (t : List Char) : List Char → Prop
  | bare {a b : List Char} : IsBlank a → IsBlank b → Wraps t (a ++ (t ++ b))
  | fenced {a x y b : List Char} : IsBlank a → IsBlank x → IsBlank y → IsBlank b →
      Wraps t (a ++ (fence ++ (fenceWord ++ (x ++ (t ++ (y ++ (fence ++ b)))))))

/-- Reading a reply without its fences comes to a limit, which is no fault of its syntax. -/
def LimitFault (limit : Nat) (s : List Char) : Prop :=
  ∃ f, Json.read limit (stripFences s) = .error f ∧ f.syntax? = none

theorem backtick_notMem_of_isBlank {s : List Char} (h : IsBlank s) : '`' ∉ s := by
  intro hs
  cases h '`' hs

/-- Nothing but white space is left of a last fence. -/
theorem isBlank_unfenced_fence {b : List Char} (hb : IsBlank b) : IsBlank (unfenced (fence ++ b)) := by
  obtain ⟨u, rest, h, -, hdrop⟩ := unfenced_of_fence (List.prefix_append fence b)
  obtain rfl := List.append_cancel_left h
  rw [hdrop, unfenced_of_notMem (backtick_notMem_of_isBlank hb.right)]
  exact hb.right

/-- A fence with its word takes the white space after it. -/
theorem unfenced_fence {x s : List Char} {c : Char} (hx : IsBlank x) (hc : isBlank c = false) :
    unfenced (fence ++ (fenceWord ++ (x ++ c :: s))) = unfenced (c :: s) := by
  apply unfenced_of_some
  have hword : afterFolded? "json".toList (fenceWord ++ (x ++ c :: s)) = some (x ++ c :: s) := by
    simp only [fenceWord]
    rfl
  rw [afterFence?, after?_append, Option.map_some, hword, Option.getD_some,
    List.dropWhile_append_of_pos hx, List.dropWhile_cons_of_neg (by simp [hc])]

/-- A reply of nothing but an object is read as that, without the fences of its text. -/
theorem Wraps.stripFences {sp mid sp' s : List Char} (hsp : IsBlank sp) (hsp' : IsBlank sp')
    (h : Wraps (sp ++ ('{' :: (mid ++ ['}']) ++ sp')) s) :
    stripFences s = unfenced ('{' :: (mid ++ ['}'])) := by
  rw [Text.stripFences, unfenced_braces, unfenced_nil]
  change trim (unfenced s) = _
  cases h with
  | @bare a b ha hb =>
    have hsplit : a ++ (sp ++ ('{' :: (mid ++ ['}']) ++ sp') ++ b) =
        (a ++ sp) ++ ('{' :: (mid ++ '}' :: (sp' ++ b))) := by simp
    rw [hsplit, unfenced_append (backtick_notMem_of_isBlank (ha.append hsp)), unfenced_braces,
      unfenced_of_notMem (backtick_notMem_of_isBlank (hsp'.append hb))]
    exact trim_append (ha.append hsp) (hsp'.append hb) (by decide) (by decide)
  | @fenced a x y b ha hx hy hb =>
    have hsplit : x ++ (sp ++ ('{' :: (mid ++ ['}']) ++ sp') ++ (y ++ (fence ++ b))) =
        (x ++ sp) ++ '{' :: (mid ++ '}' :: ((sp' ++ y) ++ (fence ++ b))) := by simp
    have hlast := isBlank_unfenced_fence hb
    rw [unfenced_append (backtick_notMem_of_isBlank ha), hsplit,
      unfenced_fence (hx.append hsp) (by decide), unfenced_braces,
      unfenced_append (backtick_notMem_of_isBlank (hsp'.append hy))]
    exact trim_append ha ((hsp'.append hy).append hlast) (by decide) (by decide)

theorem IsProse.backtick_notMem {s : List Char} (h : IsProse s) : '`' ∉ s :=
  fun hs => (h '`' hs).2.2 rfl

theorem dropWhile_brace {a s : List Char} (ha : '{' ∉ a) :
    (a ++ '{' :: s).dropWhile (· != '\x7b') = '{' :: s := by
  rw [List.dropWhile_append_of_pos, List.dropWhile_cons_of_neg (by decide)]
  intro c hc
  rw [bne_iff_ne]
  rintro rfl
  exact ha hc

theorem isProse_of_isBlank {s : List Char} (h : IsBlank s) : IsProse s := by
  intro c hc
  refine ⟨?_, ?_, ?_⟩ <;> rintro rfl <;> cases h _ hc

theorem IsProse.append {a b : List Char} (ha : IsProse a) (hb : IsProse b) : IsProse (a ++ b) :=
  fun c hc => (List.mem_append.1 hc).elim (ha c) (hb c)

/-- In prose the object is found as it was written. -/
theorem bracedSpan?_prose {a mid b : List Char} (ha : IsProse a) (hb : IsProse b) :
    bracedSpan? (a ++ ('{' :: (mid ++ ['}']) ++ b)) = some ('{' :: (mid ++ ['}'])) := by
  have hsplit : a ++ ('{' :: (mid ++ ['}']) ++ b) = a ++ '{' :: (mid ++ '}' :: b) := by simp
  rw [bracedSpan?, hsplit, dropWhile_brace fun h => (ha _ h).1 rfl, ← List.cons_append,
    upToLast?_append fun h => (hb _ h).2.1 rfl]
  rfl

theorem codeMembers?_of_noObject {v : Json} (h : NoObject v) : codeMembers? v = none := by
  cases v with
  | obj ms => exact absurd rfl (h ms)
  | _ => rfl

theorem unfenced_prose {a mid b : List Char} (ha : IsProse a) (hb : IsProse b) :
    unfenced (a ++ ('{' :: (mid ++ ['}']) ++ b)) = a ++ ('{' :: (unfenced mid ++ '}' :: b)) := by
  have hsplit : a ++ ('{' :: (mid ++ ['}']) ++ b) = a ++ '{' :: (mid ++ '}' :: b) := by simp
  rw [hsplit, unfenced_append ha.backtick_notMem, unfenced_braces, unfenced_of_notMem hb.backtick_notMem]

/-- With prose before it an object is not read. -/
theorem codeMembers?_of_before {a x : List Char} {v : Json} (ha : IsProse a) (hblank : ¬IsBlank a)
    (h : Json.read limit (trim (a ++ x)) = .ok v) : codeMembers? v = none := by
  obtain ⟨c, s, htrim, hc, hmem⟩ := trim_head (b := x) (exists_of_not_isBlank hblank)
  rw [htrim] at h
  exact codeMembers?_of_noObject (noObject_of_read h (not_isSpace_of_not_isBlank hc) (ha c hmem).1)

/-- With prose after it an object is not read. -/
theorem read_of_after {a mid b : List Char} {ts : List Token} {v : Json} (ha : IsBlank a)
    (hblank : ¬IsBlank b) (ho : ObjectText ('{' :: (mid ++ ['}'])) ts) (hr : Reads limit .start ts v) :
    ∃ p, Json.read limit (trim (a ++ ('{' :: (mid ++ '}' :: b)))) = .error (.extraData p) := by
  have hsplit : mid ++ '}' :: b = (mid ++ ['}']) ++ b := by simp
  obtain ⟨b', htrim, c, hc, hcblank⟩ :=
    trim_append_of_exists (m := mid ++ ['}']) ha (exists_of_not_isBlank hblank) (c := '{') (by decide)
  rw [hsplit, htrim]
  exact ho.read_extra hr ⟨c, hc, not_isSpace_of_not_isBlank hcblank⟩

/-- The first candidate of an object in prose is no object with code. -/
theorem codeMembers?_prose {a mid b : List Char} {ts : List Token} {ms : List (RawText × Json)} {v : Json}
    (ha : IsProse a) (hb : IsProse b) (hblank : ¬(IsBlank a ∧ IsBlank b))
    (ho : ObjectText ('{' :: (mid ++ ['}'])) ts) (hr : Reads limit .start ts (.obj ms))
    (h : Json.read limit (stripFences (a ++ ('{' :: (mid ++ ['}']) ++ b))) = .ok v) :
    codeMembers? v = none := by
  change Json.read limit (trim (unfenced _)) = _ at h
  rw [unfenced_prose ha hb] at h
  by_cases hbefore : IsBlank a
  · obtain ⟨ts', w, ho', hr', -⟩ :=
      ho.reads_unfenced False False hr False.elim False.elim
    rw [unfenced_braces, unfenced_nil] at ho'
    obtain ⟨p, hp⟩ := read_of_after hbefore (fun hafter => hblank ⟨hbefore, hafter⟩) ho' hr'
    rw [hp] at h
    cases h
  · exact codeMembers?_of_before ha hbefore h

theorem ofReply_of_ok {s : List Char} {ms : List (RawText × Json)} (hs : ∃ c ∈ s, isBlank c = false)
    (h : firstObject? (Json.read limit) (candidates s) = .ok (some ms)) :
    ofReply limit (some (String.ofList s)) = ofReplyMembers ms := by
  rw [ofReply_of_visible hs, h]

theorem ofReply_of_error {s : List Char} {f : Solwright.Fault} (hs : ∃ c ∈ s, isBlank c = false)
    (h : firstObject? (Json.read limit) (candidates s) = .error f) :
    ofReply limit (some (String.ofList s)) = .error f := by
  rw [ofReply_of_visible hs, h]

/-- A reply whose first candidate is an object with code. -/
theorem ofReply_first {s : List Char} {ms : List (RawText × Json)} {v : Json}
    (hs : ∃ c ∈ s, isBlank c = false) (h : Json.read limit (stripFences s) = .ok (.obj ms))
    (hcode : ms.lookup (.formed "contractCode") = some v) :
    ofReply limit (some (String.ofList s)) = ofReplyMembers ms := by
  apply ofReply_of_ok hs
  exact firstObject?_of_code h (by simp [hcode]) _

/-- A reply whose first candidate is none, and whose second one is an object with code. -/
theorem ofReply_second {s o : List Char} {ms : List (RawText × Json)} {v : Json}
    (hs : ∃ c ∈ s, isBlank c = false)
    (hfirst : ∀ v, Json.read limit (stripFences s) = .ok v → codeMembers? v = none)
    (hspan : bracedSpan? s = some o) (h : Json.read limit o = .ok (.obj ms))
    (hcode : ms.lookup (.formed "contractCode") = some v) (hlimit : ¬LimitFault limit s) :
    ofReply limit (some (String.ofList s)) = ofReplyMembers ms := by
  have hpassed : ¬HoldsCode (Json.read limit) (stripFences s) := by
    rintro ⟨ns, hread, hns⟩
    have hnone := hfirst _ hread
    rw [codeMembers?_eq_some.2 ⟨rfl, hns⟩] at hnone
    cases hnone
  apply ofReply_of_ok hs
  rw [candidates, firstObject?_of_passed hpassed hlimit, hspan]
  exact firstObject?_of_code h (by simp [hcode]) []

theorem ofReply_limit {s : List Char} (hs : ∃ c ∈ s, isBlank c = false) (hlimit : LimitFault limit s) :
    ∃ f, ofReply limit (some (String.ofList s)) = .error f := by
  obtain ⟨f, hf, -⟩ := firstObject?_of_meetsLimit hlimit (bracedSpan? s).toList
  exact ⟨f, ofReply_of_error hs hf⟩

variable {t s : List Char} {ms : List (RawText × Json)} {d : Description}

theorem brace_mem_of_read (h : Json.read limit t = .ok (.obj ms)) : '{' ∈ t := by
  obtain ⟨sp, o, sp', ts, rfl, -, -, ho, -⟩ := objectText_of_read h
  obtain ⟨mid, rfl⟩ := ho.braces
  simp

theorem Wraps.mem {c : Char} (h : Wraps t s) (hc : c ∈ t) : c ∈ s := by
  cases h <;> simp [hc]

/-- Where a reply holds nothing but an object, its fences are dropped. -/
theorem ofReply_wraps (verbatim : Prop) (hread : Json.read limit t = .ok (.obj ms)) (hd : d.Of ms)
    (hkeys : ∀ m ∈ ms, ¬fence <:+: m.1.shown.toList) (hverbatim : verbatim → spellsBacktick t = false)
    (h : Wraps t s) : ∃ d' ns, ofReply limit (some (String.ofList s)) = ofReplyMembers ns ∧ d'.Of ns ∧
      d.Drops verbatim d' := by
  have hbrace := h.mem (brace_mem_of_read hread)
  obtain ⟨sp, o, sp', ts, rfl, hsp, hsp', ho, hr⟩ := objectText_of_read hread
  have hspell : verbatim → spellsBacktick o = false := by
    intro hv
    have hslash : '\\' ∉ sp := fun hmem => (ne_of_isSpace (hsp _ hmem)).2 rfl
    have hfalse := hverbatim hv
    rw [spellsBacktick_append hslash] at hfalse
    rw [Bool.eq_false_iff] at hfalse ⊢
    exact fun htrue => hfalse (spellsBacktick_mono htrue sp')
  obtain ⟨ts', w, ho', hr', hw⟩ := ho.reads_unfenced True verbatim hr hspell fun _ => hkeys
  obtain ⟨ns, rfl, hms⟩ := hw trivial
  obtain ⟨d', hd', hdrops⟩ := hd.drops hms
  obtain ⟨mid, rfl⟩ := ho.braces
  have hstrip := h.stripFences (isBlank_of_isSpaces hsp) (isBlank_of_isSpaces hsp')
  refine ⟨d', ns, ofReply_first ⟨'{', hbrace, by decide⟩ ?_ hd'.code, hd', hdrops⟩
  rw [hstrip]
  exact ho'.read hr'

/-- In prose the object is read as it was written, unless reading the reply as a whole comes to a
limit. -/
theorem ofReply_prose {a b : List Char} (hread : Json.read limit t = .ok (.obj ms)) (hd : d.Of ms)
    (ha : IsProse a) (hb : IsProse b) (hblank : ¬(IsBlank a ∧ IsBlank b))
    (hlimit : ¬LimitFault limit (a ++ (t ++ b))) :
    ofReply limit (some (String.ofList (a ++ (t ++ b)))) = ofReplyMembers ms := by
  obtain ⟨sp, o, sp', ts, rfl, hsp, hsp', ho, hr⟩ := objectText_of_read hread
  obtain ⟨mid, rfl⟩ := ho.braces
  have hsplit : a ++ (sp ++ ('{' :: (mid ++ ['}']) ++ sp') ++ b) =
      (a ++ sp) ++ ('{' :: (mid ++ ['}']) ++ (sp' ++ b)) := by simp
  have hbefore : IsProse (a ++ sp) := ha.append (isProse_of_isBlank (isBlank_of_isSpaces hsp))
  have hafter : IsProse (sp' ++ b) := IsProse.append (isProse_of_isBlank (isBlank_of_isSpaces hsp')) hb
  have hboth : ¬(IsBlank (a ++ sp) ∧ IsBlank (sp' ++ b)) := fun h => hblank ⟨h.1.left, h.2.right⟩
  rw [hsplit] at hlimit ⊢
  exact ofReply_second ⟨'{', by simp, by decide⟩
    (fun v hv => codeMembers?_prose hbefore hafter hboth ho hr hv) (bracedSpan?_prose hbefore hafter)
    (ho.read hr) hd.code hlimit

/-- A described contract is read back from a reply of nothing but its object if none of its texts has a
fence and its code is well formed, and, where no escape spells a backtick, only then. From its object
in prose it is read back if its code is well formed and reading the reply as a whole comes to no
limit, and only then. -/
theorem readsBack_iff (hread : Json.read limit t = .ok (.obj ms)) (hd : d.Of ms) (hcode : d.code ≠ [])
    (hname : d.name ≠ []) :
    ((∀ m ∈ ms, ¬fence <:+: m.1.shown.toList) → ∀ s, Wraps t s →
      (d.Fenceless ∧ d.code.any isHalf = false → ReadsBack limit s d) ∧
      (spellsBacktick t = false → ReadsBack limit s d → d.Fenceless ∧ d.code.any isHalf = false)) ∧
    ∀ a b, IsProse a → IsProse b → ¬(IsBlank a ∧ IsBlank b) →
      (ReadsBack limit (a ++ (t ++ b)) d ↔ d.code.any isHalf = false ∧ ¬LimitFault limit (a ++ (t ++ b))) := by
  constructor
  · intro hkeys s hs
    obtain ⟨d', ns, hreply, hd', hdrops⟩ :=
      ofReply_wraps (spellsBacktick t = false) hread hd hkeys id hs
    unfold ReadsBack
    rw [hreply]
    constructor
    · rintro ⟨hfenceless, hhalf⟩
      exact (hdrops.of_fenceless hfenceless hd').fits hcode hhalf hname
    · rintro hverbatim ⟨c, hc, hfits⟩
      have hfenceless := hdrops.fenceless hverbatim hd' hc hfits
      exact ⟨hfenceless, (hdrops.of_fenceless hfenceless hd').wellFormed_of_ok hc⟩
  · intro a b ha hb hblank
    constructor
    · rintro ⟨c, hc, hfits⟩
      have hlimit : ¬LimitFault limit (a ++ (t ++ b)) := by
        intro hlimit
        have hbrace : '{' ∈ a ++ (t ++ b) := by simp [brace_mem_of_read hread]
        obtain ⟨f, hf⟩ := ofReply_limit ⟨'{', hbrace, by decide⟩ hlimit
        rw [hf] at hc
        cases hc
      rw [ofReply_prose hread hd ha hb hblank hlimit] at hc
      exact ⟨hd.wellFormed_of_ok hc, hlimit⟩
    · rintro ⟨hhalf, hlimit⟩
      unfold ReadsBack
      rw [ofReply_prose hread hd ha hb hblank hlimit]
      exact hd.fits hcode hhalf hname

/-- A contract with a fence in a comment of its code. -/
def commented : Description :=
  ⟨(bytes "// ```\ncontract A \x7b\x7d").map UInt8.toNat, [65], none, [], none⟩

/-- The text of an object that describes it. -/
def commentedText : String :=
  "\x7b\"contractCode\":\"// ```\\ncontract A \x7b\x7d\",\"contractName\":\"A\",\"symbol\":null," ++
    "\"contractType\":\"custom\",\"features\":[],\"explanation\":null\x7d"

/-- Whether a text is that of an object of six members that describes it. -/
def describesCommented (s : List Char) : Bool :=
  match Json.read 1000 s with
  | .ok (.obj [(k, .str code), (l, .str name), (m, .null), (n, _), (o, .arr []), (q, .null)]) =>
    [k, l, m, n, o, q] == ["contractCode", "contractName", "symbol", "contractType", "features",
      "explanation"].map RawText.formed && code == shown commented.code && name == shown commented.name
  | _ => false

theorem of_describesCommented {s : List Char} (h : describesCommented s = true) :
    ∃ ms, Json.read 1000 s = .ok (.obj ms) ∧ commented.Of ms ∧ ∀ m ∈ ms, ¬fence <:+: m.1.shown.toList := by
  unfold describesCommented at h
  split at h
  next k code l name m n v o q hread =>
    simp only [List.map_cons, List.map_nil, Bool.and_eq_true, beq_iff_eq, List.cons.injEq, and_true] at h
    obtain ⟨⟨⟨rfl, rfl, rfl, rfl, rfl, rfl⟩, rfl⟩, rfl⟩ := h
    have hcode : commented.code.any isHalf = false := by decide
    have hname : commented.name.any isHalf = false := by decide
    have hnames : ∀ k ∈ ["contractCode", "contractName", "symbol", "contractType", "features",
        "explanation"].map RawText.formed, ¬fence <:+: k.shown.toList := by decide
    refine ⟨_, hread, ⟨?_, ?_, rfl, rfl, rfl⟩, fun m hm => hnames m.1 (List.mem_map_of_mem hm)⟩
    · rw [ofCodes, hcode]
      rfl
    · rw [ofCodes, hname]
      rfl
  next => cases h

/-- Its code is not read back from its object alone, and is read back from its object in prose. -/
theorem readsBack_commented : ¬ReadsBack 1000 ([] ++ (commentedText.toList ++ [])) commented ∧
    ReadsBack 1000 (['O', 'k', ' '] ++ (commentedText.toList ++ [])) commented := by
  have hdescribes : passes describesCommented commentedText = true := by decide +kernel
  have hplain : passes (!spellsBacktick ·) commentedText = true := by rfl
  have hlimit : passes (fun s => match Json.read 1000 (stripFences (['O', 'k', ' '] ++ (s ++ []))) with
      | .error f => f.syntax?.isSome
      | .ok _ => true) commentedText = true := by decide +kernel
  have hplain : spellsBacktick commentedText.toList = false := by simpa using of_passes hplain
  obtain ⟨ms, hread, hd, hkeys⟩ := of_describesCommented (of_passes hdescribes)
  have hiff := readsBack_iff hread hd (by decide) (by decide)
  constructor
  · intro h
    have hfenceless := ((hiff.1 hkeys _ (.bare (by simp [IsBlank]) (by simp [IsBlank]))).2 hplain h).1
    have hfence : fence <:+: shownCodes commented.code := by decide
    exact hfenceless commented.code (by simp [Description.texts]) hfence
  · have hprose : IsProse ['O', 'k', ' '] := by simp [IsProse]
    have hempty : IsProse [] := by simp [IsProse]
    have hblank : ¬IsBlank ['O', 'k', ' '] := fun h => absurd (h 'O' List.mem_cons_self) (by decide)
    refine (hiff.2 _ _ hprose hempty fun h => hblank h.1).2 ⟨by decide, ?_⟩
    rintro ⟨f, hf, hnone⟩
    have hoff := of_passes hlimit
    simp only [hf, hnone] at hoff
    cases hoff

end Solwright.WrittenContract
