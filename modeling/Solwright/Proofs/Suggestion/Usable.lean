import Solwright.Interpretation
import Solwright.Proofs.Composition.Accepted
import Solwright.Proofs.Suggestion.Request

/-! Whatever a model does, the suggestion for a text makes a request with all parameters, and the
contract of that request is accepted. -/

namespace Solwright

open Solwright.Text Solwright.Source Session

/-- A letter of ASCII has a single capital. -/
theorem capital_of_isAlpha {c : Char} (h : c.isAlpha = true) : capital c = [c.toUpper] := by
  rw [isAlpha_iff, isUpper_iff, isLower_iff] at h
  rw [capital, if_pos (by omega)]

theorem flatMap_capital {s : List Char} (h : ∀ c ∈ s, c.isAlpha = true) :
    s.flatMap capital = s.map Char.toUpper := by
  induction s with
  | nil => rfl
  | cons c s ih =>
    rw [List.flatMap_cons, capital_of_isAlpha (h c List.mem_cons_self),
      ih fun d hd => h d (List.mem_cons_of_mem c hd)]
    rfl

namespace Keywords

theorem isSymbol_upper_take {w : List Char} (h : isNameLike w = true) :
    isSymbol (upper (String.ofList (w.take 5))).toList = true := by
  simp only [isNameLike, Bool.and_eq_true, decide_eq_true_eq, List.all_eq_true] at h
  obtain ⟨⟨⟨⟨hlong, -⟩, halpha⟩, -⟩, -⟩ := h
  have htake : ∀ c ∈ w.take 5, c.isAlpha = true := fun c hc => halpha c (List.mem_of_mem_take hc)
  have hupper : ∀ c ∈ (w.take 5).map Char.toUpper, c.isUpper = true := by
    intro c hc
    obtain ⟨d, hd, rfl⟩ := List.mem_map.1 hc
    exact isUpper_toUpper (htake d hd)
  rw [upper, String.toList_ofList, String.toList_ofList, flatMap_capital htake, isSymbol,
    List.all_eq_true.2 hupper]
  simp only [List.length_map, List.length_take, Bool.and_true, Bool.and_eq_true, decide_eq_true_eq]
  omega

/-- The keywords of a text lead to a symbol. -/
theorem symbol_suggest (prompt : String) : ∃ t, (suggest prompt).symbol = some t ∧
    t.isSymbol = true := by
  cases hn : name? prompt.toList with
  | none =>
    have hdefault : ∀ f, (defaults f).symbol.isSymbol = true := fun f => by cases f <;> decide
    exact ⟨_, by simp only [suggest, hn], hdefault (familyRule (keywordsOf prompt.toList)).family⟩
  | some n =>
    refine ⟨.formed (upper (String.ofList (n.text.toList.take 5))), by simp only [suggest, hn], ?_⟩
    obtain ⟨w, -, hw⟩ := List.exists_of_findSome?_eq_some hn
    unfold nameOfWord? at hw
    split at hw
    next h =>
      cases hw
      simpa [RawText.isSymbol, RawText.shown] using isSymbol_upper_take h.2
    next => cases hw

end Keywords

namespace Session

/-- A piece of work whose outcomes all have a property. -/
def Returns {α : Type} (x : StateM Session α) (P : α → Prop) : Prop := ∀ s, P (x s).1

theorem Returns.pure {α : Type} {P : α → Prop} {a : α} (h : P a) :
    Returns (Pure.pure a : StateM Session α) P := fun _ => h

theorem Returns.bind {α β : Type} {P : β → Prop} {x : StateM Session α} {f : α → StateM Session β}
    (h : ∀ a, Returns (f a) P) : Returns (x >>= f) P := fun _ => h _ _

/-- A suggestion that is not a model's is the one of the keywords. -/
theorem interpret_heuristic (prompt : RawText) (available : Bool) (context : Context)
    (passed : Option Client) (settings : Settings) :
    Returns (interpret prompt available context passed settings) fun r =>
      r.2 = .heuristic → r.1 = Keywords.suggest prompt.shown := by
  unfold interpret
  cases available with
  | false => exact .pure fun _ => rfl
  | true =>
    refine .bind fun client => ?_
    cases client with
    | none => exact .pure fun _ => rfl
    | some _ =>
      refine .bind fun reply => ?_
      cases reply with
      | ok g => exact .pure fun h => by cases h
      | error f => exact .bind fun _ => .pure fun _ => rfl

end Session

/-- Every suggestion is of use: it makes a request with all parameters, which keeps what the suggestion
says and its symbol if that is one, and the contract of the request is accepted and declared under the
suggested name. -/
theorem interpret_usable (prompt : RawText) (available : Bool) (context : Context)
    (passed : Option Client) (settings : Settings) (s : Session) :
    let (g, provenance) := ((interpret prompt available context passed settings).run s).1
    g.requestWith .null = .ok (g.toRequest []) ∧
    ∀ parameters, let r := g.toRequest parameters
      g.requestWith (.obj parameters) = .ok r ∧ Request.read (g.fields parameters) = .ok r ∧
      r.family = g.family ∧ r.contractName = g.contractName ∧ r.features = g.features ∧
      r.symbol.map (fun symbol => RawText.formed symbol.text) = g.symbol.filter RawText.isSymbol ∧
      (provenance = .heuristic → g.symbol ≠ none ∧ r.symbol.map (fun symbol => .formed symbol.text) = g.symbol) ∧
      ∃ c, r.generate = .ok c ∧ firstDeclared? c.source = some g.contractName.text := by
  have hheuristic : ((interpret prompt available context passed settings).run s).1.2 = .heuristic →
      ((interpret prompt available context passed settings).run s).1.1 = Keywords.suggest prompt.shown :=
    interpret_heuristic prompt available context passed settings s
  generalize ((interpret prompt available context passed settings).run s).1 = outcome at hheuristic ⊢
  obtain ⟨g, provenance⟩ := outcome
  refine ⟨g.requestWith_null, fun parameters => ⟨g.requestWith_obj parameters,
    g.read_fields parameters, rfl, rfl, rfl, g.symbol_toRequest parameters, fun hp => ?_, _,
    Request.generate_eq_ok _, Request.firstDeclared_compose _⟩⟩
  obtain ⟨t, ht, hsymbol⟩ := Keywords.symbol_suggest prompt.shown
  have hg : g.symbol = some t := by
    rw [show g = _ from hheuristic hp, ht]
  refine ⟨by simp [hg], ?_⟩
  rw [g.symbol_toRequest parameters, hg]
  simp [Option.filter, hsymbol]

end Solwright
