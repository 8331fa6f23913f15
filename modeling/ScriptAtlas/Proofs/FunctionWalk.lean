import ScriptAtlas.Function.Query
import ScriptAtlas.Proofs.Address

/-! # What a walk does to the functions around it

A walk through a tree leaves the stacks as they were, adds the functions and calls of the tree
behind those it had, and changes one older function, the innermost open one. `gains_visit` says this
with `entriesIn`, `sitesIn` and `Entry.grow`, which read the tree by recursion and know no stack. -/

namespace ScriptAtlas.Function

open Syntax

theorem calleeName?_of_isFunction {n : Node} (h : isFunction n = true) : calleeName? n = none := by
  obtain ⟨kind, span, children⟩ := n
  cases kind <;> simp_all [isFunction, calleeName?, Node.kind]

theorem isDecision_mk (kind : Kind) (span : Span) (children : List Node) :
    isDecision (.mk kind span children) = decide (kind = .decision) := rfl

theorem isDecision_of_isFunction {n : Node} (h : isFunction n = true) : isDecision n = false := by
  obtain ⟨kind, span, children⟩ := n
  cases kind <;> simp_all [isFunction, isDecision, Node.kind]

/-! ### Reading the tree -/

mutual

/-- The names called in a tree, put into the names of the function around it. A function inside
gathers its own names first. -/
def gather (names : List String) : Node → List String
  | .mk kind span children =>
    let n := Node.mk kind span children
    if isFunction n then (gatherAll [] children).foldl addName names
    else gatherAll ((calleeName? n).elim names (addName names)) children

def gatherAll (names : List String) : List Node → List String
  | [] => names
  | n :: ns => gatherAll (gather names n) ns

end

namespace Entry

/-- A function that has not been looked into. -/
def fresh (n : Node) (parent : Option Node) : Entry := ⟨nameOf n parent, shownSpan n parent, [], 1⟩

/-- What a function becomes by a node in it that is no function. -/
def mark (n : Node) (e : Entry) : Entry :=
  { e with
    calls := (calleeName? n).elim e.calls (addName e.calls)
    complexity := e.complexity + if isDecision n then 1 else 0 }

/-- What a function becomes by a tree in it. -/
def grow (n : Node) (e : Entry) : Entry :=
  { e with calls := gather e.calls n, complexity := e.complexity + decisions n }

/-- What a function becomes by trees in it. -/
def growAll (ns : List Node) (e : Entry) : Entry :=
  { e with calls := gatherAll e.calls ns, complexity := e.complexity + decisionsInAll ns }

theorem growAll_cons (n : Node) (ns : List Node) (e : Entry) :
    growAll (n :: ns) e = growAll ns (grow n e) := by
  simp [growAll, grow, gatherAll, decisionsInAll, Nat.add_assoc]

theorem grow_function {kind : Kind} {span : Span} {children : List Node}
    (h : isFunction (.mk kind span children) = true) (parent : Option Node) (e : Entry) :
    grow (.mk kind span children) e =
      e.absorb (growAll children (fresh (.mk kind span children) parent)) := by
  have hd : kind ≠ .decision := by
    simpa [isDecision_mk] using isDecision_of_isFunction h
  simp [grow, absorb, growAll, fresh, gather, decisions, h, hd]

theorem grow_mark {kind : Kind} {span : Span} {children : List Node}
    (h : isFunction (.mk kind span children) = false) (e : Entry) :
    grow (.mk kind span children) e = growAll children (mark (.mk kind span children) e) := by
  simp [grow, growAll, mark, gather, decisions, h, isDecision_mk, Nat.add_assoc]

end Entry

mutual

/-- The functions of a tree, outer ones first. -/
def entriesIn (parent : Option Node) : Node → List Entry
  | .mk kind span children =>
    let n := Node.mk kind span children
    (if isFunction n then [Entry.growAll children (Entry.fresh n parent)] else []) ++
      entriesInAll n children

def entriesInAll (parent : Node) : List Node → List Entry
  | [] => []
  | n :: ns => entriesIn (some parent) n ++ entriesInAll parent ns

end

mutual

/-- The calls of a tree. Its functions have the positions from `next` on; the one around it has
the position `outer`. -/
def sitesIn (next : Nat) (outer : Option Nat) : Node → List CallSite
  | .mk kind span children =>
    let n := Node.mk kind span children
    if isFunction n then sitesInAll (next + 1) (some next) children
    else ((calleeName? n).map (⟨·, outer⟩)).toList ++ sitesInAll next outer children

def sitesInAll (next : Nat) (outer : Option Nat) : List Node → List CallSite
  | [] => []
  | n :: ns =>
    sitesIn next outer n ++ sitesInAll (next + (n.addressesWhere isFunction).length) outer ns

end

mutual

theorem length_entriesIn (parent : Option Node) : ∀ n : Node,
    (entriesIn parent n).length = (n.addressesWhere isFunction).length
  | .mk kind span children => by
    simp only [entriesIn, Node.addressesWhere, List.length_append,
      length_entriesInAll (.mk kind span children) 0 children]
    split <;> rfl

theorem length_entriesInAll (parent : Node) (i : Nat) : ∀ ns : List Node,
    (entriesInAll parent ns).length = (Node.addressesWhereFrom isFunction i ns).length
  | [] => rfl
  | n :: ns => by
    simp only [entriesInAll, Node.addressesWhereFrom, List.length_append, List.length_map,
      length_entriesIn _ n, length_entriesInAll parent (i + 1) ns]

end

/-! ### The innermost function -/

/-- `es` with `f` applied to the entry of the innermost open function, if one is open. -/
def atFrame (frame : Option Nat) (f : Entry → Entry) (es : List Entry) : List Entry :=
  match frame with
  | some i => es.modify i f
  | none => es

@[simp] theorem length_atFrame (frame : Option Nat) (f : Entry → Entry) (es : List Entry) :
    (atFrame frame f es).length = es.length := by
  cases frame <;> simp [atFrame]

theorem atFrame_atFrame (frame : Option Nat) (f g : Entry → Entry) (es : List Entry) :
    atFrame frame g (atFrame frame f es) = atFrame frame (g ∘ f) es := by
  cases frame with
  | none => rfl
  | some i => exact List.modify_modify_eq f g i es

theorem modify_append_left {i : Nat} (f : Entry → Entry) {es : List Entry} (h : i < es.length)
    (es' : List Entry) : (es ++ es').modify i f = es.modify i f ++ es' := by
  induction es generalizing i with
  | nil => simp at h
  | cons e es ih =>
    cases i with
    | zero => simp
    | succ i => simpa using ih (by simpa using h)

theorem modify_append_cons (f : Entry → Entry) (es : List Entry) (e : Entry) (es' : List Entry) :
    (es ++ e :: es').modify es.length f = es ++ f e :: es' := by
  induction es with
  | nil => rfl
  | cons d es ih => simp [ih]

theorem atFrame_append {frame : Option Nat} (f : Entry → Entry) {es : List Entry}
    (h : ∀ i, frame = some i → i < es.length) (es' : List Entry) :
    atFrame frame f (es ++ es') = atFrame frame f es ++ es' := by
  cases frame with
  | none => rfl
  | some i => exact modify_append_left f (h i rfl) es'

namespace Walk

/-- The innermost open function is among those found. -/
def Anchored (w : Walk) : Prop := ∀ i, w.frames.head? = some i → i < w.functions.size

/-- `w'` is `w` with `es` and `ss` behind what it found, its innermost open function changed by
`f`, and everything else as it was. -/
structure Gains (w w' : Walk) (f : Entry → Entry) (es : List Entry) (ss : List CallSite) :
    Prop where
  ancestors_eq : w'.ancestors = w.ancestors
  frames_eq : w'.frames = w.frames
  functions_eq : w'.functions.toList = atFrame w.frames.head? f w.functions.toList ++ es
  sites_eq : w'.sites.toList = w.sites.toList ++ ss

variable {w w' w'' : Walk} {f g : Entry → Entry} {es es' : List Entry} {ss ss' : List CallSite}

theorem Gains.size_eq (h : Gains w w' f es ss) :
    w'.functions.size = w.functions.size + es.length := by
  rw [← Array.length_toList, h.functions_eq, List.length_append, length_atFrame,
    Array.length_toList]

theorem Gains.anchored (h : Gains w w' f es ss) (hw : w.Anchored) : w'.Anchored := by
  intro i hi
  rw [h.frames_eq] at hi
  have := hw i hi
  have := h.size_eq
  omega

theorem Gains.trans (hw : w.Anchored) (h : Gains w w' f es ss) (h' : Gains w' w'' g es' ss') :
    Gains w w'' (g ∘ f) (es ++ es') (ss ++ ss') where
  ancestors_eq := h'.ancestors_eq.trans h.ancestors_eq
  frames_eq := h'.frames_eq.trans h.frames_eq
  functions_eq := by
    have hlen : ∀ i, w.frames.head? = some i →
        i < (atFrame w.frames.head? f w.functions.toList).length := by
      simpa [Anchored] using hw
    rw [h'.functions_eq, h.frames_eq, h.functions_eq, atFrame_append g hlen, atFrame_atFrame,
      List.append_assoc]
  sites_eq := by rw [h'.sites_eq, h.sites_eq, List.append_assoc]

theorem gains_refl (w : Walk) : Gains w w id [] [] :=
  ⟨rfl, rfl, by cases w.frames.head? <;> simp [atFrame], by simp⟩

theorem gains_onInnermost (w : Walk) (f : Entry → Entry) :
    Gains w (w.onInnermost f) f [] [] := by
  obtain ⟨ancestors, frames, functions, sites⟩ := w
  cases frames <;> constructor <;> simp [onInnermost, atFrame]

/-! ### One node -/

theorem gains_record (w : Walk) (callee : String) :
    Gains w (w.record callee) (·.addCall callee) [] [⟨callee, w.frames.head?⟩] := by
  have h := gains_onInnermost w (·.addCall callee)
  exact ⟨h.ancestors_eq, h.frames_eq, h.functions_eq, by simp [record, h.sites_eq]⟩

theorem gains_countDecision (w : Walk) : Gains w w.countDecision (·.addDecision) [] [] :=
  gains_onInnermost w _

/-- A node that is no function gives its call and its decision to the innermost open function. -/
theorem gains_note {n : Node} (hn : isFunction n = false) (hw : w.Anchored) :
    Gains w (w.note n) (Entry.mark n) [] ((calleeName? n).map (⟨·, w.frames.head?⟩)).toList := by
  cases hc : calleeName? n with
  | none =>
    by_cases hd : isDecision n
    · have hm : Entry.mark n = (·.addDecision) := by
        funext e; simp [Entry.mark, Entry.addDecision, hc, hd]
      simpa [note, hn, hc, hd, hm] using gains_countDecision w
    · have hm : Entry.mark n = id := by funext e; simp [Entry.mark, hc, hd]
      simpa [note, hn, hc, hd, hm] using gains_refl w
  | some callee =>
    have hr := gains_record w callee
    by_cases hd : isDecision n
    · have hm : Entry.mark n = (·.addDecision) ∘ (·.addCall callee) := by
        funext e; simp [Entry.mark, Entry.addDecision, Entry.addCall, hc, hd]
      simpa [note, hn, hc, hd, hm] using hr.trans hw (gains_countDecision _)
    · have hm : Entry.mark n = (·.addCall callee) := by
        funext e; simp [Entry.mark, Entry.addCall, hc, hd]
      simpa [note, hn, hc, hd, hm] using hr

theorem enter_function {n : Node} (hn : isFunction n = true) :
    w.enter n = { w.openFunction n with ancestors := n :: w.ancestors } := by
  simp [enter, note, hn, isDecision_of_isFunction hn, openFunction]

/-- Closing a function that stands behind the older ones. -/
theorem gains_closeFunction {i : Nat} {closed : Entry} (hf : w'.frames = i :: w.frames)
    (ha : w'.ancestors = w.ancestors) (hw : w.Anchored) (hi : i = w.functions.size)
    (hfs : w'.functions.toList = w.functions.toList ++ closed :: es)
    (hss : w'.sites.toList = w.sites.toList ++ ss) :
    Gains w w'.closeFunction (·.absorb closed) (closed :: es) ss := by
  have hc : w'.functions.getD i default = closed := by
    rw [Array.getD_eq_getD_getElem?, ← Array.getElem?_toList, hfs]
    simp [hi]
  have h := gains_onInnermost { w' with frames := w.frames } (·.absorb closed)
  have hclose : w'.closeFunction =
      Walk.onInnermost { w' with frames := w.frames } (·.absorb closed) := by
    simp [closeFunction, hf, hc]
  rw [hclose]
  refine ⟨h.ancestors_eq.trans ha, h.frames_eq, ?_, by simpa [hss] using h.sites_eq⟩
  rw [h.functions_eq, List.append_nil, hfs]
  exact atFrame_append _ (by simpa [Anchored] using hw) _

/-! ### Whole trees -/

/-- A function node, from what the walk through its children does. Entering puts the function behind
the older ones and makes it the innermost; closing it changes the one around. -/
theorem gains_function {n : Node} {children : List Node} (hn : isFunction n = true)
    (hw : w.Anchored)
    (h : Gains (w.enter n) w' (Entry.growAll children) es ss) :
    Gains w (w'.leave n) (·.absorb (Entry.growAll children (Entry.fresh n w.ancestors.head?)))
      (Entry.growAll children (Entry.fresh n w.ancestors.head?) :: es) ss := by
  obtain ⟨ha, hfr, hfs, hss⟩ := h
  simp only [enter_function hn, openFunction, List.head?_cons, Array.toList_push, atFrame]
    at ha hfr hfs hss
  -- The function opened here is the last one found, so its children change the entry at the end.
  rw [← w.functions.length_toList, modify_append_cons, List.append_assoc] at hfs
  rw [leave, if_pos hn]
  exact gains_closeFunction hfr (by simp [ha]) hw (by simp) hfs hss

/-- Any other node, from what the walk through its children does. -/
theorem gains_plain {n : Node} (hn : isFunction n = false) (hw : w.Anchored)
    (h : Gains (w.enter n) w' f es ss) :
    Gains w (w'.leave n) (f ∘ Entry.mark n) es
      (((calleeName? n).map (⟨·, w.frames.head?⟩)).toList ++ ss) := by
  have hnote := gains_note hn hw
  have hrest : Gains (w.note n) (w'.leave n) f es ss := by
    rw [leave, if_neg (by simp [hn])]
    exact ⟨by simp [h.ancestors_eq, enter], h.frames_eq, h.functions_eq, h.sites_eq⟩
  exact hnote.trans hw hrest

mutual

/-- **A walk through a tree** finds what the tree holds, and gives it to the innermost function. -/
theorem gains_visit : ∀ (n : Node) (w : Walk), w.Anchored →
    Gains w (w.visit n) (Entry.grow n) (entriesIn w.ancestors.head? n)
      (sitesIn w.functions.size w.frames.head? n)
  | .mk kind span children, w, hw => by
    rw [visit, entriesIn, sitesIn]
    by_cases hn : isFunction (.mk kind span children)
    · have henter := enter_function (w := w) hn
      have h := gains_visitAll children (w.enter (.mk kind span children)) (.mk kind span children)
        (by simp [henter, Anchored, openFunction]) (by simp [henter])
      rw [if_pos hn, if_pos hn, funext (Entry.grow_function hn w.ancestors.head?)]
      simpa [henter, openFunction] using gains_function hn hw h
    · have hn : isFunction (.mk kind span children) = false := by simpa using hn
      have hnote := gains_note hn hw
      have h := gains_visitAll children (w.enter (.mk kind span children)) (.mk kind span children)
        (hnote.anchored hw) rfl
      have hsize := hnote.size_eq
      have hfr := hnote.frames_eq
      have hg := funext (Entry.grow_mark hn)
      simpa [hn, hg, enter, hsize, hfr, Function.comp_def] using gains_plain hn hw h

theorem gains_visitAll : ∀ (ns : List Node) (w : Walk) (parent : Node), w.Anchored →
    w.ancestors.head? = some parent →
    Gains w (w.visitAll ns) (Entry.growAll ns) (entriesInAll parent ns)
      (sitesInAll w.functions.size w.frames.head? ns)
  | [], w, parent, _, _ => by
    have hid : Entry.growAll [] = id := by funext e; simp [Entry.growAll, gatherAll, decisionsInAll]
    rw [hid]
    exact gains_refl w
  | n :: ns, w, parent, hw, hp => by
    have h := gains_visit n w hw
    have h' := gains_visitAll ns (w.visit n) parent (h.anchored hw) (by rw [h.ancestors_eq, hp])
    have hg : Entry.growAll (n :: ns) = Entry.growAll ns ∘ Entry.grow n :=
      funext (Entry.growAll_cons n ns)
    rw [hp] at h
    rw [h.size_eq, h.frames_eq, length_entriesIn] at h'
    rw [hg]
    exact h.trans hw h'

end

end Walk

end ScriptAtlas.Function
