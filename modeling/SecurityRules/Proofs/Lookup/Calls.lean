import SecurityRules.Analysis
import SecurityRules.Proofs.Origin.Origins
import SecurityRules.Proofs.Parser.Lossless
import SecurityRules.Proofs.Scope.Policies
import SecurityRules.Proofs.Token.Heads

/-!
# Calls are found where they stand

The lookup at the name of a call goes exactly the way on which a walk reaches the call. So the check of calls and the
search for definitions ask the same scopes.
-/

namespace SecurityRules

/-- A character that starts at an offset is not behind the last character. -/
theorem le_lastCharacter {text : Bytes} {n : Nat} {b : UInt8} (found : text[n]? = some b)
    (starts : Utf8.isContinuation b = false) : n ≤ Extent.lastCharacter 0 text := by
  cases n with
  | zero => exact Nat.zero_le _
  | succ k =>
    have found : (text.drop 1)[k]? = some b := by
      rw [List.getElem?_drop, Nat.add_comm]
      exact found
    obtain ⟨inside, found⟩ := List.getElem?_eq_some_iff.mp found
    have split := List.take_append_drop k (text.drop 1)
    rw [List.drop_eq_getElem_cons inside, found] at split
    have length : ((text.drop 1).take k).length = k := by
      rw [List.length_take]
      omega
    rw [Extent.lastCharacter, ← split, List.reverse_append, List.reverse_cons, List.append_assoc, List.singleton_append,
      List.dropWhile_append]
    split
    · rw [List.dropWhile_cons_of_neg (by simp [starts]), List.length_cons, List.length_reverse, length]
      omega
    · rw [List.length_append, List.length_cons, List.length_reverse, length]
      omega

namespace Build

open ParseTree (Regular Apart)

variable {f : SourceFile} {limit : Nat}

/-- A part with a point in it is the first one with that point if it is made of a tree with a width. -/
theorem find?_of_made (small : f.IsSmall) {sources : List ParseTree} {parts : List Element}
    (made : List.Forall₂ (Makes f limit) sources parts) (apart : sources.Pairwise Apart)
    (regular : ∀ u ∈ sources, Regular f u) {u : ParseTree} {part : Element} (pair : (u, part) ∈ sources.zip parts)
    (filled : u.isEmpty = false) {p : Point} (inside : part.span.contains p = true) :
    parts.find? (·.span.contains p) = some part := by
  induction made with
  | nil => cases pair
  | @cons a first rest others here below ih =>
    obtain ⟨beside, apart⟩ := List.pairwise_cons.mp apart
    rcases List.mem_cons.mp pair with same | later
    · cases same
      exact List.find?_cons_of_pos (by exact inside)
    · have member := (List.of_mem_zip later).1
      have made := (List.forall₂_iff_zip.mp below).2 later
      have disjoint := (regular a (List.mem_cons_self ..)).span_apart small
        (regular u (List.mem_cons_of_mem a member)) (beside u member) filled
      have outside : ¬ first.span.contains p = true := by
        rw [Span.contains_iff, here.span_eq]
        rw [Span.contains_iff, made.span_eq] at inside
        omega
      rw [List.find?_cons_of_neg (by exact outside)]
      exact ih apart (fun v member => regular v (List.mem_cons_of_mem a member)) later

theorem exists_zip {sources : List ParseTree} {parts : List Element}
    (made : List.Forall₂ (Makes f limit) sources parts) {part : Element} (member : part ∈ parts) :
    ∃ u, (u, part) ∈ sources.zip parts := by
  obtain ⟨i, inside, rfl⟩ := List.getElem_of_mem member
  have source : i < sources.length := made.length_eq ▸ inside
  refine ⟨sources[i], List.mem_iff_getElem.mpr ⟨i, ?_, List.getElem_zip⟩⟩
  rw [List.length_zip]
  omega

/-- A call starts with an identifier. -/
theorem exists_name {t : ParseTree} (regular : Regular f t) (kind : t.kind = .functionCall) :
    ∃ name ∈ t.nodes, name.start = t.start ∧ name.kind = .identifier ∧ name.children = [] ∧
      name.isEmpty = false := by
  obtain ⟨first, rest, children, _, isName, _, childless, filled⟩ := regular.shaped.named kind
  have child : first ∈ t.children := by
    rw [children]
    exact List.mem_cons_self ..
  refine ⟨first, ParseTree.mem_nodes_of_mem_children child, ?_, isName, childless, filled⟩
  rw [ParseTree.start, ParseTree.start, regular.sound.whole (List.ne_nil_of_mem child), children]
  exact (ParseTree.extentOf_start first rest).symm

/-- The chain of elements from `e` down at the point `p` ends in `c` and is the way from `e` to `c`. The tree of `e`
holds that of the call `c`. -/
structure Reached (f : SourceFile) (t : ParseTree) (e : Element) (scopes : List Element) (c : Element) (p : Point) :
    Prop where
  chain : e.chainAt p = scopes ++ [c]
  source : ∃ u ∈ t.nodes, u.kind = .functionCall ∧ c.span = u.span ∧ p = f.pointAt u.start

/-- A call is not empty. -/
theorem filled_of_functionCall {t : ParseTree} (regular : Regular f t) (kind : t.kind = .functionCall) :
    t.isEmpty = false := by
  obtain ⟨name, inside, _, _, _, filled⟩ := exists_name regular kind
  have forward := (regular.filled_of_mem inside filled).1
  rw [Bool.eq_false_iff, Ne, ParseTree.isEmpty_iff]
  omega

/-- An element that holds a call has a width, and the point of the call lies in it. -/
theorem Reached.inside {t : ParseTree} {e c : Element} {scopes : List Element} {p : Point} (small : f.IsSmall)
    (regular : Regular f t) (made : Makes f limit t e) (reached : Reached f t e scopes c p) :
    t.isEmpty = false ∧ e.span.contains p = true := by
  obtain ⟨v, node, kind, _, rfl⟩ := reached.source
  have filled := filled_of_functionCall (regular.of_mem node) kind
  have within := regular.span_within small node filled
  have forward := (regular.of_mem node).span_forward small
  obtain ⟨_, span, _⟩ := (regular.of_mem node).exists_last
  rw [span] at within forward
  dsimp only at within forward
  constructor
  · have wide := (regular.filled_of_mem node filled).1
    rw [Bool.eq_false_iff, Ne, ParseTree.isEmpty_iff]
    omega
  · rw [made.span_eq, Span.contains_iff]
    omega

/-- Every call in what is made of a tree is reached at its name. -/
theorem reached_of_made (small : f.IsSmall) (e : Element) : ∀ t : ParseTree, Regular f t → Makes f limit t e →
    ∀ scopes c p, e.Holds scopes c → c.callPoint? = some p → Reached f t e scopes c p := by
  induction e using Element.induct with
  | step e ih =>
    intro t regular made scopes c p holds point
    obtain ⟨sources, sourced⟩ := made.sourced regular
    have regularIn : ∀ u ∈ sources, Regular f u := fun u member => regular.of_mem (sourced.inside u member)
    rcases Element.holds_iff.mp holds with ⟨rfl, rfl⟩ | ⟨part, member, inner, rfl, below⟩
    · obtain ⟨rfl, kind, later⟩ := sourced.called p point
      refine ⟨Element.chainAt_of_none fun part member => ?_, t, t.self_mem_nodes, kind, made.span_eq, rfl⟩
      obtain ⟨u, pair⟩ := exists_zip sourced.made member
      have source := (List.of_mem_zip pair).1
      obtain ⟨_, span, _⟩ := (regularIn u source).exists_last
      have bounded : u.start ≤ f.size :=
        Nat.le_trans (regularIn u source).sound.forward (regularIn u source).sound.bounded
      have behind := SourceFile.rank_pointAt_lt small (later u source) bounded
      rw [Bool.eq_false_iff, ((List.forall₂_iff_zip.mp sourced.made).2 pair).span_eq, Ne, Span.contains_iff, span]
      dsimp only
      omega
    · obtain ⟨u, pair⟩ := exists_zip sourced.made member
      have source := (List.of_mem_zip pair).1
      have madePart := (List.forall₂_iff_zip.mp sourced.made).2 pair
      have reached := ih part member u (regularIn u source) madePart inner c p below point
      obtain ⟨filled, inside⟩ := reached.inside small (regularIn u source) madePart
      obtain ⟨v, node, isCall⟩ := reached.source
      refine ⟨?_, v, ParseTree.nodes_trans node (sourced.inside u source), isCall⟩
      rw [Element.chainAt_eq, find?_of_made small sourced.made sourced.apart regularIn pair filled inside]
      show e :: part.chainAt _ = e :: inner ++ [c]
      rw [reached.chain]
      rfl

end Build

/-! ## Calls of a document -/

section

variable {f : SourceFile} (maxDepth : Int)

open ParseTree (Regular)

/-- Every tree below the document is regular. -/
theorem regular_parse : ∀ c ∈ (Parser.parse f maxDepth).children, Regular f c :=
  Parser.sound_parse f maxDepth

theorem span_parse : (Parser.parse f maxDepth).span =
    ⟨f.pointAt 0, f.pointAt (Extent.lastCharacter 0 f.content)⟩ := by
  rw [ParseTree.span, Parser.extent_parse, (Extent.ends_ofRange f 0 f.size).span_eq, SourceFile.bytesBetween,
    List.drop_zero, Nat.sub_zero, SourceFile.size, List.take_length]
  rfl

/-- A call starts with a name, and so not behind the last character of the document. -/
theorem call_le_lastCharacter {t : ParseTree} (inside : t ∈ (Parser.parse f maxDepth).nodes) (regular : Regular f t)
    (kind : t.kind = .functionCall) : t.start ≤ Extent.lastCharacter 0 f.content := by
  obtain ⟨name, node, start, isName, childless, filled⟩ := Build.exists_name regular kind
  have leaf := ParseTree.mem_leaves_of_mem_nodes (ParseTree.nodes_trans node inside) childless
  obtain ⟨run, within, above⟩ := (Parser.tiled_parse f maxDepth).run_of_mem leaf filled
  obtain ⟨first, member, _, _, same, _⟩ := above.ends
  have spelled := above.spelled first member
  rw [isName] at spelled
  obtain ⟨b, found, starts⟩ := (f.measured (within.subset member)).isContinuation_head spelled
  rw [← start, ← same]
  exact le_lastCharacter found starts

/-- The lookup at the name of a call is the way to it, and the call starts there. -/
theorem lookup_call (small : f.IsSmall) {scopes : List Element} {c : Element} {p : Point}
    (holds : (Element.tree (Build.build f (Parser.parse f maxDepth) (Parser.depthLimit maxDepth)).tree).Holds scopes c)
    (point : c.callPoint? = some p) :
    (Build.build f (Parser.parse f maxDepth) (Parser.depthLimit maxDepth)).tree.lookup p = scopes ++ [c] ∧
      c.span.start = p := by
  have regular := regular_parse (f := f) maxDepth
  have whole := (@Build.Makes.document f (Parser.depthLimit maxDepth) (Parser.parse f maxDepth)).span_eq
  generalize rootEq : Parser.parse f maxDepth = root at *
  generalize Parser.depthLimit maxDepth = limit at *
  obtain ⟨u, made, source⟩ := Build.exists_body f limit root
  rcases Element.holds_iff.mp holds with ⟨_, rfl⟩ | ⟨part, member, inner, rfl, below⟩
  · cases point
  obtain rfl : part = .matchBody _ := List.mem_singleton.mp member
  rcases source with ⟨child, isChild, node⟩ | ⟨rfl, bare⟩
  · have regularU := (regular child isChild).of_mem node
    have reached := Build.reached_of_made small _ u regularU made inner c p below point
    obtain ⟨_, inside⟩ := reached.inside small regularU made
    obtain ⟨v, nodeV, kind, span, rfl⟩ := reached.source
    have regularV := regularU.of_mem nodeV
    have inRoot : v ∈ root.nodes :=
      ParseTree.nodes_trans nodeV (ParseTree.mem_nodes.mpr (Or.inr ⟨child, isChild, node⟩))
    rw [← rootEq] at inRoot
    have last := call_le_lastCharacter maxDepth inRoot regularV kind
    have bounded : Extent.lastCharacter 0 f.content ≤ f.size := by
      have := (Extent.lastCharacter_le 0 f.content).2
      unfold SourceFile.size
      omega
    have low := SourceFile.rank_pointAt_le small (Nat.zero_le v.start) (Nat.le_trans last bounded)
    have high := SourceFile.rank_pointAt_le small last bounded
    have inDocument : (Build.build f root limit).tree.span.contains (f.pointAt v.start) = true := by
      show (Element.tree (Build.build f root limit).tree).span.contains _ = true
      rw [whole, ← rootEq, span_parse, Span.contains_iff]
      exact ⟨low, high⟩
    have chain : (Element.tree (Build.build f root limit).tree).children.find?
        (·.span.contains (f.pointAt v.start)) = some (.matchBody (Build.build f root limit).tree.body) :=
      List.find?_cons_of_pos (by exact inside)
    constructor
    · rw [RulesTree.lookup, if_pos inDocument, Element.chainAt_eq, chain]
      show _ :: Element.chainAt _ _ = _
      rw [reached.chain]
      rfl
    · obtain ⟨_, spanV, _⟩ := regularV.exists_last
      rw [span, spanV]
  · rw [bare] at below
    rcases Element.holds_iff.mp below with ⟨_, rfl⟩ | ⟨_, none, _⟩
    · cases point
    · cases none

end

/-! ## Definitions of calls -/

namespace Scope

variable {policy : ScopePolicy} {scopes : List Element} {span nameSpan : Span} {name : Bytes} {args : List Expr}

/-- The innermost reference of a chain that ends in a call is that call. -/
theorem resolve_call (around : scopes ≠ []) :
    resolve policy (scopes ++ [.expr (.call span name nameSpan args)]) = resolveIn policy (.call name) scopes := by
  have long : ¬ (scopes ++ [Element.expr (.call span name nameSpan args)]).length < 2 := by
    have := List.length_pos_iff.mpr around
    rw [List.length_append, List.length_singleton]
    omega
  rw [resolve, target?, if_neg long, List.reverse_append, List.reverse_singleton, List.singleton_append,
    targetOfReverse]
  show resolveIn policy (.call name) scopes.reverse.reverse = _
  rw [List.reverse_reverse]

/-- What a call refers to is a function of that name in one of the bodies around it. -/
theorem resolveIn_call_eq_ok {declaration : Declaration}
    (found : resolveIn policy (.call name) scopes = .ok declaration) :
    ∃ g body, declaration = .function g ∧ g.name = name ∧ Element.matchBody body ∈ scopes ∧ g ∈ body.functions := by
  unfold resolveIn at found
  split at found
  · rename_i first there
    obtain rfl := Except.ok.inj found
    obtain ⟨e, member, declares⟩ := List.exists_of_findSome?_eq_some there
    have declares : function? name e = some first := declares
    unfold function? at declares
    split at declares
    · rename_i body _
      obtain ⟨g, first, rfl⟩ := Option.map_eq_some_iff.mp declares
      exact ⟨g, body, rfl, by simpa using List.find?_some first, mem_order.1 member, List.mem_of_find?_eq_some first⟩
    · cases declares
  · cases found

theorem resolveIn_cases (policy : ScopePolicy) (reference : Reference) (scopes : List Element) :
    resolveIn policy reference scopes = .error (.unresolved reference) ∨
      ∃ declaration, resolveIn policy reference scopes = .ok declaration := by
  unfold resolveIn
  split
  · exact Or.inr ⟨_, rfl⟩
  · exact Or.inl rfl

end Scope

namespace Diagnose

variable {policy : ScopePolicy} {builtins : List Bytes}

/-- A finding of the check of calls is about a call without a definition. -/
theorem exists_call_of_mem {tree : RulesTree} {finding : Diagnostic}
    (member : finding ∈ unresolvedCalls tree policy builtins) :
    ∃ scopes span name nameSpan args, (Element.tree tree).Holds scopes (.expr (.call span name nameSpan args)) ∧
      finding.span = span ∧ Scope.resolveIn policy (.call name) scopes = .error (.unresolved (.call name)) := by
  obtain ⟨⟨scopes, e⟩, holds, found⟩ := List.mem_filterMap.mp member
  dsimp only at found
  unfold unresolvedCall? at found
  split at found
  · rename_i span name nameSpan args
    split at found
    · cases found
    · split at found
      · cases found
      · rename_i failed
        refine ⟨scopes, span, name, nameSpan, args, holds, ?_, ?_⟩
        · rw [← Option.some.inj found]
          rfl
        · rcases Scope.resolveIn_cases policy (.call name) scopes with same | ⟨declaration, there⟩
          · exact same
          · rw [there] at failed
            cases failed
  · cases found

/-- A call that is not built in and has no definition is reported. -/
theorem mem_of_call {tree : RulesTree} {scopes : List Element} {span nameSpan : Span} {name : Bytes} {args : List Expr}
    (holds : (Element.tree tree).Holds scopes (.expr (.call span name nameSpan args))) (foreign : name ∉ builtins)
    (failed : Scope.resolveIn policy (.call name) scopes = .error (.unresolved (.call name))) :
    errorAt .unresolvedFunction span noFunctionMessage ∈ unresolvedCalls tree policy builtins := by
  refine List.mem_filterMap.mpr ⟨(scopes, .expr (.call span name nameSpan args)), holds, ?_⟩
  simp [unresolvedCall?, foreign, failed]

end Diagnose

namespace Document

/-- Whether the check of calls reports a function without a definition at a span. -/
def Reports (d : Document) (span : Span) : Prop :=
  ∃ finding ∈ d.semanticErrors, finding.code = .unresolvedFunction ∧ finding.span = span

/-- The check of calls and the search for a definition agree on every call of a document, whatever its text: the
lookup at its name reaches it on the way of a walk; if it is not built in, it is reported exactly if it has no
definition, and otherwise its definition is a function of its name in a body around it. -/
theorem calls_agree (uri : Bytes) (version : Int) (path text : Bytes) (isVirtual : Bool) (options : AnalysisOptions)
    (small : (SourceFile.ofBytes path text isVirtual).size < 2 ^ 32) :
    let d := analyze uri version (SourceFile.ofBytes path text isVirtual) options
    ∀ scopes span name nameSpan args,
      (scopes, Element.expr (.call span name nameSpan args)) ∈ (Element.tree d.built.tree).walk [] →
      d.lookup nameSpan.start = scopes ++ [.expr (.call span name nameSpan args)] ∧
        (name ∉ options.builtins →
          (d.Reports span ↔ d.definition nameSpan.start = .error (.unresolved (.call name))) ∧
          (¬ d.Reports span → ∃ g body, d.definition nameSpan.start = .ok (.function g) ∧ g.name = name ∧
            Element.matchBody body ∈ scopes ∧ g ∈ body.functions)) := by
  intro d scopes span name nameSpan args holds
  have small := SourceFile.isSmall_ofBytes small
  obtain ⟨chain, start⟩ := lookup_call options.maxDepth small holds rfl
  have around : scopes ≠ [] := by
    rintro rfl
    rcases Element.holds_iff.mp holds with ⟨_, same⟩ | ⟨_, _, _, same, _⟩
    · cases same
    · cases same
  have definition : d.definition nameSpan.start = Scope.resolveIn options.policy (.call name) scopes := by
    rw [Document.definition, Document.lookup]
    exact (congrArg (Scope.resolve options.policy) chain).trans (Scope.resolve_call around)
  refine ⟨chain, fun foreign => ?_⟩
  have reports : d.Reports span ↔
      Scope.resolveIn options.policy (.call name) scopes = .error (.unresolved (.call name)) := by
    constructor
    · rintro ⟨finding, member, _, same⟩
      obtain ⟨scopes', span', name', nameSpan', args', holds', rfl, failed⟩ := Diagnose.exists_call_of_mem member
      obtain ⟨chain', start'⟩ := lookup_call options.maxDepth small holds' rfl
      have start : finding.span.start = nameSpan.start := same ▸ start
      -- Both calls are found at the start of the one span, so they are the same call.
      rw [show nameSpan'.start = nameSpan.start from start'.symm.trans start] at chain'
      obtain ⟨rfl, last⟩ := List.append_inj' (chain'.symm.trans chain) rfl
      simp only [List.cons.injEq, Element.expr.injEq, Expr.call.injEq, and_true] at last
      rw [← last.2.1]
      exact failed
    · intro failed
      exact ⟨_, Diagnose.mem_of_call holds foreign failed, rfl, rfl⟩
  rw [definition]
  refine ⟨reports, fun unreported => ?_⟩
  rcases Scope.resolveIn_cases options.policy (.call name) scopes with failed | ⟨declaration, found⟩
  · exact absurd (reports.mpr failed) unreported
  · obtain ⟨g, body, rfl, named, scope, declared⟩ := Scope.resolveIn_call_eq_ok found
    exact ⟨g, body, found, named, scope, declared⟩

/-- A document with a call of a function that the service declares. -/
def sampleCall : Bytes :=
  Bytes.ofString "service a \x7b function f(x) \x7b return x; \x7d match /b \x7b allow read: if f(1); \x7d \x7d"

theorem calls_agree_sampleCall :
    let d := analyze [] 1 (SourceFile.ofBytes [] sampleCall true) {}
    (SourceFile.ofBytes [] sampleCall true).size < 2 ^ 32 ∧
      ∃ scopes span name nameSpan args,
        (scopes, Element.expr (.call span name nameSpan args)) ∈ (Element.tree d.built.tree).walk [] ∧
        d.lookup nameSpan.start = scopes ++ [.expr (.call span name nameSpan args)] ∧
        ∃ g body, d.definition nameSpan.start = .ok (.function g) ∧ g.name = name ∧
          Element.matchBody body ∈ scopes ∧ g ∈ body.functions := by
  intro d
  have small : (SourceFile.ofBytes [] sampleCall true).size < 2 ^ 32 := by decide +kernel
  have found : ((Element.tree d.built.tree).walk []).any (·.2.callPoint?.isSome) = true := by decide +kernel
  have silent : d.semanticErrors.isEmpty = true := by decide +kernel
  obtain ⟨⟨scopes, e⟩, member, isCall⟩ := List.any_eq_true.mp found
  obtain ⟨span, name, nameSpan, args, rfl⟩ : ∃ span name nameSpan args, e = .expr (.call span name nameSpan args) := by
    dsimp only at isCall
    unfold Element.callPoint? at isCall
    split at isCall
    · exact ⟨_, _, _, _, rfl⟩
    · cases isCall
  obtain ⟨chain, agree⟩ := calls_agree [] 1 [] sampleCall true {} small scopes span name nameSpan args member
  refine ⟨small, scopes, span, name, nameSpan, args, member, chain, (agree List.not_mem_nil).2 ?_⟩
  rintro ⟨finding, member, _⟩
  rw [List.isEmpty_iff.mp silent] at member
  cases member

end Document

end SecurityRules
