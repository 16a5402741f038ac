import Solwright.Proofs.Json.Members
import Solwright.Proofs.Json.Trimmed
import Solwright.Proofs.Schema.Accepted
import Solwright.Proofs.Text.Stripped
import Solwright.Suggestion.Reply

/-! Replies of a model. The object in a reply makes a suggestion exactly if its members are of use, and a fence
around the reply makes no difference. -/

namespace Solwright.Suggestion

open Solwright.Text Solwright.Schema

/-- The members of an object are of use: all six of a suggestion are there, each of its kind. -/
structure IsUsable (ms : List (RawText × Json)) : Prop where
  family : ∃ s f, ms.lookup (.formed "family") = some (.str s) ∧ Family.IsSpelled f s
  contractName : ∃ s, ms.lookup (.formed "contractName") = some (.str s) ∧ isContractName s.toList = true
  symbol : ∃ o, ms.lookup (.formed "symbol") = some (.rawText? o)
  initialSupply : ∃ v, ms.lookup (.formed "initialSupply") = some v ∧
    (v = .null ∨ (∃ n, v = .int n) ∨ ∃ s : RawText, v = s.json)
  features : ∃ ss, ms.lookup (.formed "features") = some (.rawTexts ss)
  reasoning : ∃ s : RawText, ms.lookup (.formed "reasoning") = some s.json ∧ s ≠ .formed ""

/-- The members of an object say what a suggestion holds. -/
structure Says (ms : List (RawText × Json)) (g : Suggestion) : Prop where
  family : ∃ s, ms.lookup (.formed "family") = some (.str s) ∧ g.family.IsSpelled s
  contractName : ms.lookup (.formed "contractName") = some (.str g.contractName.text)
  symbol : ms.lookup (.formed "symbol") = some (.rawText? g.symbol)
  initialSupply : ∃ v, ms.lookup (.formed "initialSupply") = some v ∧ IsSupply v g.initialSupply
  features : ms.lookup (.formed "features") = some (.rawTexts g.features)
  reasoning : ms.lookup (.formed "reasoning") = some (.str g.reasoning) ∧ g.reasoning ≠ ""

variable {limit : Nat} {ms : List (RawText × Json)} {g : Suggestion} {s : List Char}

theorem Says.lookup (h : Says ms g) {name : String} (hname : name ∈ replyFields) :
    ∃ v, ms.lookup (.formed name) = some v := by
  obtain ⟨⟨family, hfamily, -⟩, hcontractName, hsymbol, ⟨supply, hsupply, -⟩, hfeatures, hreasoning, -⟩ := h
  simp only [replyFields, List.mem_cons, List.not_mem_nil, or_false] at hname
  rcases hname with rfl | rfl | rfl | rfl | rfl | rfl <;> exact ⟨_, by assumption⟩

/-- Members under all six names are accepted exactly if they say what the suggestion holds. -/
theorem ofMembers_eq_accept (hall : ∀ name ∈ replyFields, ∃ v, ms.lookup (.formed name) = some v) :
    ofMembers ms = .accept g ↔ Says ms g := by
  obtain ⟨family, hfamily⟩ := hall "family" (by decide)
  obtain ⟨contractName, hcontractName⟩ := hall "contractName" (by decide)
  obtain ⟨symbol, hsymbol⟩ := hall "symbol" (by decide)
  obtain ⟨supply, hsupply⟩ := hall "initialSupply" (by decide)
  obtain ⟨features, hfeatures⟩ := hall "features" (by decide)
  obtain ⟨reasoning, hreasoning⟩ := hall "reasoning" (by decide)
  have hmembers : ofMembers ms = .accept g ↔ Family.check family = .accept g.family ∧
      ContractName.check contractName = .accept g.contractName ∧
      nullable text symbol = .accept g.symbol ∧ checkSupply supply = .accept g.initialSupply ∧
      list text features = .accept g.features ∧ someText reasoning = .accept g.reasoning := by
    simp only [ofMembers, seq_eq_accept, map_eq_accept,
      required_eq_accept_iff (f := .plain "family") (Field.find?_of_lookup hfamily),
      required_eq_accept_iff (f := Request.nameField) (Field.find?_of_lookup hcontractName),
      optional_eq_accept_iff (f := .plain "symbol") (Field.find?_of_lookup hsymbol),
      optional_eq_accept_iff (f := supplyField) (Field.find?_of_lookup hsupply),
      required_eq_accept_iff (f := .plain "features") (Field.find?_of_lookup hfeatures),
      required_eq_accept_iff (f := .plain "reasoning") (Field.find?_of_lookup hreasoning)]
    constructor
    · rintro ⟨_, r, ⟨_, fs, ⟨_, i, ⟨_, y, ⟨_, n, ⟨f, hf, rfl⟩, hn, rfl⟩, hy, rfl⟩, hi, rfl⟩, hfs, rfl⟩, hr, rfl⟩
      exact ⟨hf, hn, hy, hi, hfs, hr⟩
    · rintro ⟨hf, hn, hy, hi, hfs, hr⟩
      exact ⟨_, _, ⟨_, _, ⟨_, _, ⟨_, _, ⟨_, _, ⟨_, hf, rfl⟩, hn, rfl⟩, hy, rfl⟩, hi, rfl⟩, hfs, rfl⟩, hr, rfl⟩
  rw [hmembers, Family.check_eq_accept, ContractName.check_eq_accept, nullable_text_eq_accept,
    checkSupply_eq_accept, list_text_eq_accept, someText_eq_accept]
  constructor
  · rintro ⟨⟨t, rfl, hf⟩, rfl, rfl, hi, rfl, rfl, hr⟩
    exact ⟨⟨t, hfamily, hf⟩, hcontractName, hsymbol, ⟨_, hsupply, hi⟩, hfeatures, hreasoning, hr⟩
  · rintro ⟨⟨t, ht, hf⟩, hn, hy, ⟨i, hi, hiis⟩, hfs, hr, hne⟩
    simp only [hfamily, hcontractName, hsymbol, hsupply, hfeatures, hreasoning, Option.some_inj]
      at ht hn hy hi hfs hr
    subst hi
    exact ⟨⟨t, ht, hf⟩, hn, hy, hiis, hfs, hr, hne⟩

/-- The object of a reply makes a suggestion exactly if its members say what that holds, and no other one. -/
theorem ofReplyValue_eq_ok : ofReplyValue (.obj ms) = .ok g ↔ Says ms g := by
  by_cases hall : ∀ name ∈ replyFields, ∃ v, ms.lookup (.formed name) = some v
  · have hmissing : replyFields.filter (fun name => (ms.lookup (.formed name)).isNone) = [] := by
      rw [List.filter_eq_nil_iff]
      intro name hname
      obtain ⟨v, hv⟩ := hall name hname
      simp [hv]
    have hread : read (.obj ms) = .ok g ↔ Says ms g := named_eq_ok.trans (ofMembers_eq_accept hall)
    rw [← hread, ofReplyValue, hmissing, if_pos (by rfl)]
    cases read (.obj ms) <;> simp
  · have hmissing : replyFields.filter (fun name => (ms.lookup (.formed name)).isNone) ≠ [] := by
      simpa [List.filter_eq_nil_iff, Option.eq_none_iff_forall_ne_some] using hall
    refine ⟨fun h => ?_, fun h => absurd (fun name hname => h.lookup hname) hall⟩
    rw [ofReplyValue, if_neg (by simpa using hmissing)] at h
    cases h

/-- Whatever keeps a value from being a suggestion, it is told as one kind of failure. -/
theorem ofReplyValue_error {v : Json} {f : Fault} (h : ofReplyValue v = .error f) : ∃ reason, f = unusable reason := by
  unfold ofReplyValue at h
  split at h
  next =>
    dsimp only at h
    split at h
    next =>
      split at h <;> cases h
      exact ⟨_, rfl⟩
    next =>
      cases h
      exact ⟨_, rfl⟩
  next =>
    cases h
    exact ⟨_, rfl⟩

/-- Members say what some suggestion holds exactly if they are of use and the reasoning is well formed. -/
theorem exists_says_iff : (∃ g, Says ms g) ↔ IsUsable ms ∧ ∃ s, ms.lookup (.formed "reasoning") = some (.str s) := by
  constructor
  · rintro ⟨g, ⟨t, ht, hf⟩, hn, hy, ⟨i, hi, hiis⟩, hfs, hr, hne⟩
    refine ⟨⟨⟨t, _, ht, hf⟩, ⟨_, hn, g.contractName.wellFormed⟩, ⟨_, hy⟩, ⟨i, hi, ?_⟩, ⟨_, hfs⟩,
      ⟨.formed g.reasoning, hr, by simpa using hne⟩⟩, _, hr⟩
    generalize g.initialSupply = supply at hiis
    cases hiis with
    | null => exact .inl rfl
    | int n => exact .inr (.inl ⟨n, rfl⟩)
    | text t => exact .inr (.inr ⟨t, rfl⟩)
  · rintro ⟨⟨⟨t, f, ht, hf⟩, ⟨n, hn, hname⟩, ⟨symbol, hy⟩, ⟨i, hi, hiis⟩, ⟨features, hfs⟩, ⟨u, hu, hne⟩⟩, r, hr⟩
    obtain ⟨supply, hsupply⟩ : ∃ o, IsSupply i o := by
      rcases hiis with rfl | ⟨n, rfl⟩ | ⟨s, rfl⟩
      · exact ⟨none, .null⟩
      · exact ⟨_, .int n⟩
      · exact ⟨_, .text s⟩
    obtain rfl : u = .formed r := RawText.json_injective (Option.some.inj (hu.symm.trans hr))
    exact ⟨⟨f, ⟨n, hname⟩, symbol, supply, features, r⟩, ⟨t, ht, hf⟩, hn, hy, ⟨i, hi, hsupply⟩, hfs, hr,
      by simpa using hne⟩

theorem ofReply_eq (h : s ≠ []) : ofReply limit (some (String.ofList s)) =
    match Json.read limit (stripFences s) with
    | .ok v => ofReplyValue v
    | .error f => .error (.ofJson (fun m => unusable ("Failed to parse model response: " ++ m)) (stripFences s) f) := by
  have hempty : (String.ofList s).isEmpty = false := by simpa using h
  rw [ofReply, Option.getD_some, hempty, String.toList_ofList]
  rfl

theorem fenced_ne_nil (w t : List Char) : fenced w t ≠ [] := by simp [fenced, fence_eq]

theorem ne_nil_of_read {v : Json} (h : Json.read limit s = .ok v) : s ≠ [] := by
  rintro rfl
  cases h

/-- The object of a reply without a fence is what the reply comes to, bare or in a fence. -/
theorem ofReply_of_read (hread : Json.read limit s = .ok (.obj ms)) (hfence : ¬fence <:+: s) {reply : List Char}
    (hreply : reply = s ∨ ∃ w, IsFenceWord w ∧ reply = fenced w s) :
    ofReply limit (some (String.ofList reply)) = ofReplyValue (.obj ms) := by
  have hne : reply ≠ [] := by
    rcases hreply with rfl | ⟨w, -, rfl⟩
    · exact ne_nil_of_read hread
    · exact fenced_ne_nil w s
  have hstrip : stripFences reply = trim s := by
    have hbare : stripFences s = trim s := by rw [stripFences_eq, unfenced_of_not_isInfix hfence]
    rcases hreply with rfl | ⟨w, hw, rfl⟩
    · exact hbare
    · rw [stripFences_fenced hw, hbare]
  rw [ofReply_eq hne, hstrip, Json.read_trim hread]

/-- A reply that is the text of an object, bare or in a fence, makes a suggestion exactly if the members of the
object are of use and the reasoning among them is well formed. The suggestion holds what the members say, and
without one the reply is a failure to interpret it. -/
theorem ofReply_object (hread : Json.read limit s = .ok (.obj ms)) (hfence : ¬fence <:+: s) {reply : List Char}
    (hreply : reply = s ∨ ∃ w, IsFenceWord w ∧ reply = fenced w s) :
    let answer := ofReply limit (some (String.ofList reply))
    ((∃ g, answer = .ok g) ↔ IsUsable ms ∧ ∃ t, ms.lookup (.formed "reasoning") = some (.str t)) ∧
    (∀ g, answer = .ok g ↔ Says ms g) ∧
    ((∀ g, answer ≠ .ok g) → ∃ reason, answer = .error (unusable reason)) := by
  intro answer
  have hanswer : answer = ofReplyValue (.obj ms) := ofReply_of_read hread hfence hreply
  have hsaid : ∀ g, answer = .ok g ↔ Says ms g := by
    intro g
    rw [hanswer, ofReplyValue_eq_ok]
  refine ⟨?_, hsaid, fun hnone => ?_⟩
  · simp only [hsaid, exists_says_iff]
  · rw [hanswer] at hnone ⊢
    cases hvalue : ofReplyValue (.obj ms) with
    | ok g => exact absurd hvalue (hnone g)
    | error f =>
      obtain ⟨reason, rfl⟩ := ofReplyValue_error hvalue
      exact ⟨reason, rfl⟩

/-- The text of an object that has one key twice and one more than a suggestion. -/
def widgetReply : String :=
  "\x7b\"family\":\" NFT \",\"extra\":[true],\"contractName\":\"Widget\",\"symbol\":\"wdg\"," ++
    "\"initialSupply\":\"1\",\"features\":[\"a b\"],\"reasoning\":\"ok\",\"initialSupply\":1000\x7d"

/-- Whether a text is that of an object which says so. -/
def saysWidget (limit : Nat) (s : List Char) : Bool :=
  match Json.read limit s with
  | .ok (.obj ms) =>
    match ms.lookup (.formed "family"), ms.lookup (.formed "contractName"), ms.lookup (.formed "symbol"),
      ms.lookup (.formed "initialSupply"),
      ms.lookup (.formed "features"), ms.lookup (.formed "reasoning") with
    | some (.str f), some (.str n), some (.str _), some (.int i), some (.arr [.str _]), some (.str r) =>
      Family.ofText? f == some .nonFungible && n == "Widget" && i == 1000 && r == "ok"
    | _, _, _, _, _, _ => false
  | _ => false

theorem of_saysWidget (h : saysWidget limit s = true) : ∃ ms g, Json.read limit s = .ok (.obj ms) ∧ Says ms g ∧
    g.family = .nonFungible ∧ g.initialSupply = some (.formed "1000") := by
  unfold saysWidget at h
  split at h
  next ms hread =>
    split at h
    next f n y i t r hfamily hname hsymbol hsupply hfeatures hreasoning =>
      simp only [Bool.and_eq_true, beq_iff_eq, Family.ofText?_eq_some_iff] at h
      obtain ⟨⟨⟨hf, rfl⟩, rfl⟩, rfl⟩ := h
      have hdecimal : Number.integerText 1000 = "1000" := by decide
      have hnumber : IsSupply (.int 1000) (some (.formed "1000")) := hdecimal ▸ IsSupply.int 1000
      have hok : "ok" ≠ "" := by decide
      exact ⟨ms, ⟨.nonFungible, ⟨"Widget", by decide⟩, some y, some "1000", [t], "ok"⟩, hread,
        ⟨⟨f, hfamily, hf⟩, hname, hsymbol, ⟨_, hsupply, hnumber⟩, hfeatures, hreasoning, hok⟩, rfl, rfl⟩
    next => cases h
  next => cases h

/-- In a fence it makes a suggestion with the supply that comes last. -/
theorem ofReply_widget : ∃ ms g, Json.read 1000 widgetReply.toList = .ok (.obj ms) ∧ ¬fence <:+: widgetReply.toList ∧
    ofReply 1000 (some (String.ofList (fenced fenceWord widgetReply.toList))) = .ok g ∧
    g.family = .nonFungible ∧ g.initialSupply = some (.formed "1000") := by
  have hsaid : passes (saysWidget 1000) widgetReply = true := by decide +kernel
  have hplain : passes (fun s => decide ¬fence <:+: s) widgetReply = true := by decide +kernel
  have hfence : ¬fence <:+: widgetReply.toList := by simpa using of_passes hplain
  obtain ⟨ms, g, hread, hg, hfamily, hsupply⟩ := of_saysWidget (of_passes hsaid)
  have hreply := (ofReply_object hread hfence (.inr ⟨fenceWord, .inr (by decide), rfl⟩)).2.1 g
  exact ⟨ms, g, hread, hfence, hreply.2 hg, hfamily, hsupply⟩

/-- The text of an object whose reasoning is half a surrogate pair. -/
def halfReply : String :=
  "\x7b\"family\":\"custom\",\"contractName\":\"Widget\",\"symbol\":null,\"initialSupply\":null," ++
    "\"features\":[],\"reasoning\":\"\\ud800\"\x7d"

/-- Whether a text is that of an object which says so. -/
def saysHalf (limit : Nat) (s : List Char) : Bool :=
  match Json.read limit s with
  | .ok (.obj ms) =>
    match ms.lookup (.formed "family"), ms.lookup (.formed "contractName"), ms.lookup (.formed "symbol"),
      ms.lookup (.formed "initialSupply"),
      ms.lookup (.formed "features"), ms.lookup (.formed "reasoning") with
    | some (.str f), some (.str n), some .null, some .null, some (.arr []), some (.illFormed _) =>
      Family.ofText? f == some .custom && isContractName n.toList
    | _, _, _, _, _, _ => false
  | _ => false

/-- Its members are of use, and yet it makes no suggestion. -/
theorem ofReply_half : ∃ ms, Json.read 1000 halfReply.toList = .ok (.obj ms) ∧ ¬fence <:+: halfReply.toList ∧
    IsUsable ms ∧ ∀ g, ofReply 1000 (some halfReply) ≠ .ok g := by
  have hhalf : passes (saysHalf 1000) halfReply = true := by decide
  have hplain : passes (fun s => decide ¬fence <:+: s) halfReply = true := by decide +kernel
  have hfence : ¬fence <:+: halfReply.toList := by simpa using of_passes hplain
  have hsaid := of_passes hhalf
  unfold saysHalf at hsaid
  split at hsaid
  next ms hread =>
    split at hsaid
    next f n codes hfamily hname hsymbol hsupply hfeatures hreasoning =>
      simp only [Bool.and_eq_true, beq_iff_eq, Family.ofText?_eq_some_iff] at hsaid
      refine ⟨ms, hread, hfence, ⟨⟨f, _, hfamily, hsaid.1⟩, ⟨n, hname, hsaid.2⟩, ⟨none, hsymbol⟩,
        ⟨_, hsupply, .inl rfl⟩, ⟨[], hfeatures⟩, ⟨.illFormed codes, hreasoning, nofun⟩⟩, fun g hg => ?_⟩
      have hreply := ofReply_of_read hread hfence (.inl rfl)
      rw [String.ofList_toList, hg] at hreply
      have hg := (ofReplyValue_eq_ok.1 hreply.symm).reasoning.1
      rw [hreasoning] at hg
      cases hg
    next => cases hsaid
  next => cases hsaid

/-- Dropping fences leaves no fence and no white space at the ends, so it is done once and for all, and a reply
comes to the same in a fence of its own as without it. -/
theorem ofReply_fenced (t : List Char) :
    ¬fence <:+: stripFences t ∧ (stripFences t).head?.any isBlank = false ∧
    (stripFences t).getLast?.any isBlank = false ∧ stripFences (stripFences t) = stripFences t ∧
    ∀ w, IsFenceWord w → stripFences (fenced w t) = stripFences t ∧
      (t ≠ [] → ofReply limit (some (String.ofList (fenced w t))) = ofReply limit (some (String.ofList t))) := by
  have hfence := not_isInfix_stripFences t
  obtain ⟨hhead, hlast⟩ := visible_ends_trim (unfenced t)
  refine ⟨hfence, hhead, hlast, stripFences_of_bare hfence hhead hlast, fun w hw => ?_⟩
  refine ⟨stripFences_fenced hw t, fun ht => ?_⟩
  rw [ofReply_eq (fenced_ne_nil w t), ofReply_eq ht, stripFences_fenced hw]

/-- Runs of backticks of any length, one of them at the end. -/
def backticks : List Char := "a ```` json b``\n`````".toList

theorem ofReply_backticks : stripFences (fenced ['J', 's', 'o', 'n'] backticks) = stripFences backticks ∧
    ofReply 1000 (some (String.ofList (fenced ['J', 's', 'o', 'n'] backticks))) =
      ofReply 1000 (some (String.ofList backticks)) := by
  obtain ⟨hstrip, hreply⟩ := (ofReply_fenced backticks).2.2.2.2 ['J', 's', 'o', 'n'] (.inr (by decide))
  exact ⟨hstrip, hreply (by decide)⟩

end Solwright.Suggestion
