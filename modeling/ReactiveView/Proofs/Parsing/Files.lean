import ReactiveView.Proofs.Parsing.Templates

/-!
# Errors of templates name their file

Whatever stands in a template, an error of reading it has the file name of the options
(`parseTemplate_file`). Every error comes from `TemplateReader.fail`, and no reader changes what it
is told to read or catches what another one throws; so readers whose errors name the file are closed
under the steps that readers are made of (`TemplateReader.NamesFile`), and there is one lemma for
each reader.
-/

namespace ReactiveView
namespace TemplateReader

variable {α β : Type} {s : TemplateReader Siblings}

/-- The errors of a reader name the file that it is told to read. -/
def NamesFile (m : TemplateReader α) : Prop :=
  ∀ ⦃ctx c e⦄, m ctx c = .error e → e.file = ctx.options.filename

/-! ## Steps -/

theorem namesFile_pure (a : α) : NamesFile (pure a) := nofun

theorem NamesFile.bind {m : TemplateReader α} {f : α → TemplateReader β} (hm : NamesFile m)
    (hf : ∀ a, NamesFile (f a)) : NamesFile (m >>= f) := by
  intro ctx c e he
  have hbind : (m >>= f) ctx c = (m ctx c).bind fun (a, c') => f a ctx c' := rfl
  rw [hbind] at he
  cases hread : m ctx c with
  | error e' =>
    rw [hread] at he
    exact Except.error.inj he ▸ hm hread
  | ok read =>
    rw [hread] at he
    exact hf read.1 he

theorem NamesFile.ite {p : Prop} [Decidable p] {m m' : TemplateReader α} (hm : NamesFile m)
    (hm' : NamesFile m') : NamesFile (if p then m else m') := by
  split
  · exact hm
  · exact hm'

theorem namesFile_fail (fault : TemplateFault) (position : Position) (detail : Option String) :
    NamesFile (fail fault position detail : TemplateReader α) := by
  intro ctx c e he
  exact Except.error.inj he ▸ rfl

/-- What would be read next is not read. -/
theorem namesFile_fail_bind (fault : TemplateFault) (position : Position) (detail : Option String)
    (f : α → TemplateReader β) : NamesFile (fail fault position detail >>= f) := by
  intro ctx c e he
  exact Except.error.inj he ▸ rfl

theorem namesFile_failAt (fault : TemplateFault) (offset : Nat) (detail : Option String) :
    NamesFile (failAt fault offset detail : TemplateReader α) :=
  fun _ _ _ he => Except.error.inj he ▸ rfl

theorem namesFile_rest : NamesFile rest := nofun

theorem namesFile_here : NamesFile here := nofun

theorem namesFile_read : NamesFile (read : TemplateReader Context) := nofun

theorem namesFile_spanFrom (start : Position) : NamesFile (spanFrom start) := nofun

theorem namesFile_skipOver (cs rest : List Char) : NamesFile (skipOver cs rest) := nofun

theorem namesFile_takeWhile (p : Char → Bool) : NamesFile (takeWhile p) := nofun

theorem namesFile_skipBlanks : NamesFile skipBlanks := nofun

theorem namesFile_eat (start : String) : NamesFile (eat start) := by
  refine namesFile_rest.bind fun cs => ?_
  split
  · exact (namesFile_skipOver ..).bind fun _ => namesFile_pure _
  · exact namesFile_pure _

theorem namesFile_takeThrough? (needle : String) : NamesFile (takeThrough? needle) := by
  refine namesFile_rest.bind fun cs => ?_
  split
  · exact (namesFile_skipOver ..).bind fun _ => namesFile_pure _
  · exact namesFile_pure _

theorem namesFile_headerFrom (tag : String) (start : Position) :
    NamesFile (headerFrom tag start) := nofun

/-! ## Expressions and attributes -/

theorem namesFile_expression (source : List Char) (offset : Nat) :
    NamesFile (expression source offset) := by
  unfold expression
  split
  · exact namesFile_pure _
  · exact namesFile_failAt ..

theorem namesFile_formatParts (offset : Nat) (isExpr : Bool) (segments : List (List Char)) :
    NamesFile (formatParts offset isExpr segments) := by
  induction segments generalizing isExpr with
  | nil => exact namesFile_pure _
  | cons segment segments ih =>
    unfold formatParts
    -- every other segment is an expression
    split
    · refine (namesFile_expression ..).bind fun e => ?_
      exact (ih false).bind fun parts => namesFile_pure _
    · refine (ih true).bind fun parts => ?_
      exact (namesFile_pure _).ite (namesFile_pure _)

theorem namesFile_attributeValue (raw : List Char) (offset : Nat) :
    NamesFile (attributeValue raw offset) := by
  unfold attributeValue
  dsimp only
  split
  · exact (namesFile_expression ..).bind fun e => namesFile_pure _
  · refine NamesFile.ite ?_ (namesFile_pure _)
    exact (namesFile_formatParts ..).bind fun parts => namesFile_pure _

theorem namesFile_attributeOperand (name : String) (start : Position) :
    NamesFile (attributeOperand name start) := by
  refine (namesFile_eat "=").bind fun given => NamesFile.ite ?_ (namesFile_pure _)
  refine namesFile_skipBlanks.bind fun _ => namesFile_rest.bind fun cs => ?_
  split
  · exact namesFile_fail ..
  · refine NamesFile.ite ?_ (namesFile_fail ..)
    refine (namesFile_eat _).bind fun _ => namesFile_here.bind fun valueStart => ?_
    refine (namesFile_takeThrough? _).bind fun raw => ?_
    split
    · exact namesFile_attributeValue ..
    · exact namesFile_fail ..

theorem namesFile_attributesAt (steps : Nat) : NamesFile (attributesAt steps) := by
  induction steps with
  | zero => exact namesFile_here.bind fun place => namesFile_fail ..
  | succ steps ih =>
    refine namesFile_skipBlanks.bind fun _ => namesFile_rest.bind fun cs => ?_
    split
    · exact namesFile_here.bind fun place => namesFile_fail ..
    · exact namesFile_pure _
    · exact namesFile_pure _
    · refine namesFile_here.bind fun start => (namesFile_takeWhile _).bind fun name => ?_
      have hrest : NamesFile (do
          let name := String.ofList name
          skipBlanks
          let value ← attributeOperand name start
          let first : Attribute := ⟨name, .ofName name, value, ← spanFrom start⟩
          return first :: (← attributesAt steps)) := by
        refine namesFile_skipBlanks.bind fun _ => (namesFile_attributeOperand ..).bind fun value => ?_
        exact (namesFile_spanFrom _).bind fun span => ih.bind fun others => namesFile_pure _
      exact (namesFile_fail_bind ..).ite hrest

theorem namesFile_attributes : NamesFile attributes :=
  namesFile_rest.bind fun left => namesFile_attributesAt (left.length + 1)

/-! ## Tags -/

theorem namesFile_childrenOf (hs : NamesFile s) (tag : String) (start : Position) :
    NamesFile (childrenOf s tag start) := by
  refine hs.bind fun (children, stop) => ?_
  cases stop with
  | closeTag name close => exact (namesFile_pure _).ite (namesFile_fail ..)
  | eof | elseIf | otherwise | endMark => exact namesFile_fail ..

/-- The children of a tag that may close itself. -/
theorem namesFile_children (hs : NamesFile s) (tag : String) (selfClosing : Bool)
    (start : Position) :
    NamesFile (if selfClosing then return [] else childrenOf s tag start) :=
  (namesFile_pure _).ite (namesFile_childrenOf hs tag start)

theorem namesFile_rawBody (tag : String) (selfClosing : Bool) (start : Position) :
    NamesFile (rawBody tag selfClosing start) := by
  refine (namesFile_pure _).ite ((namesFile_takeThrough? _).bind fun body => ?_)
  split
  · exact namesFile_pure _
  · exact namesFile_fail ..

theorem namesFile_scriptParts (rounds offset : Nat) (body : List Char) :
    NamesFile (scriptParts rounds offset body) := by
  induction rounds generalizing offset body with
  | zero => exact namesFile_pure _
  | succ rounds ih =>
    unfold scriptParts
    split
    · exact namesFile_pure _
    · dsimp only
      split
      · exact namesFile_failAt ..
      · refine (namesFile_expression ..).bind fun e => ?_
        exact (ih ..).bind fun parts => namesFile_pure _

theorem namesFile_statements (body : List Char) (offset line : Nat) :
    NamesFile (statements body offset line) := by
  unfold statements
  split
  · exact namesFile_pure _
  · exact namesFile_fail ..

/-- What is read last leaves a node. -/
theorem namesFile_node {γ : Type} (header : Span → Header) (make : Header → γ)
    (start : Position) :
    NamesFile ((do return header (← spanFrom start) : TemplateReader Header) >>= fun h =>
      pure (make h)) := nofun

theorem namesFile_directive (hs : NamesFile s) (tag : String) (attributes : List Attribute)
    (selfClosing : Bool) (start : Position) :
    NamesFile (directive s tag attributes selfClosing start) := by
  refine namesFile_here.bind fun content => ?_
  have hchildren := namesFile_children hs tag selfClosing start
  have hbody := namesFile_rawBody tag selfClosing start
  dsimp only
  split
  · refine hbody.bind fun body => ?_
    exact (namesFile_statements ..).bind fun ss => namesFile_node ..
  · exact hbody.bind fun body => namesFile_node ..
  · refine hbody.bind fun body => ?_
    exact (namesFile_scriptParts ..).bind fun parts => namesFile_node ..
  · exact hchildren.bind fun nodes => namesFile_node ..
  · exact hchildren.bind fun nodes => namesFile_node ..
  · exact hchildren.bind fun nodes => namesFile_node ..
  · refine hchildren.bind fun nodes => ?_
    split
    · exact namesFile_node ..
    · exact namesFile_fail ..
  · split
    · exact namesFile_fail ..
    · next is others _ =>
      -- the name is checked before the content is read, so both end in one way
      have hnode (name : ComponentName) : NamesFile _ :=
        hchildren.bind fun nodes => (namesFile_spanFrom start).bind fun span =>
          namesFile_pure (Node.component ⟨"component", others, span, 0⟩ name nodes)
      split
      · exact hnode _
      · exact hnode _
      · exact (namesFile_fail ..).bind fun _ => hnode _
  · exact namesFile_fail ..

theorem namesFile_element (hs : NamesFile s) (top : Bool) : NamesFile (element s top) := by
  refine namesFile_here.bind fun start => (namesFile_eat "<").bind fun _ => ?_
  refine (namesFile_takeWhile isTagChar).bind fun tag => ?_
  refine namesFile_attributes.bind fun attributes => (namesFile_eat "/>").bind fun selfClosing => ?_
  have hchildren := namesFile_children hs (String.ofList tag) selfClosing start
  -- the end of the tag is checked in two steps before the content is read
  suffices hcontent : NamesFile _ from
    NamesFile.ite ((namesFile_eat ">").bind fun closed => (namesFile_fail_bind ..).ite hcontent)
      hcontent
  dsimp only
  split
  · exact (namesFile_fail_bind ..).ite (hchildren.bind fun nodes => namesFile_node ..)
  · exact namesFile_fail ..
  · exact namesFile_directive hs ..
  · exact hchildren.bind fun nodes => namesFile_node ..
  · refine NamesFile.ite ?_ (hchildren.bind fun nodes => namesFile_node ..)
    exact (namesFile_pure _).bind fun nodes => namesFile_node ..

/-! ## Control constructs -/

theorem namesFile_macroCloseError (expected : String) (stop : Stop) (start : Position) :
    NamesFile (macroCloseError expected stop start : TemplateReader α) := by
  cases stop <;> exact namesFile_fail ..

theorem namesFile_branches (hs : NamesFile s) (reactive : Bool) (start : Position) (rounds : Nat)
    (predicate : Option DynamicExpr) (seenElse : Bool) :
    NamesFile (branches s reactive start rounds predicate seenElse) := by
  induction rounds generalizing predicate seenElse with
  | zero => exact namesFile_macroCloseError ..
  | succ rounds ih =>
    refine hs.bind fun (children, stop) => ?_
    dsimp only
    split
    · exact (ih ..).bind fun bs => namesFile_pure _
    · exact (ih ..).bind fun bs => namesFile_pure _
    · exact namesFile_pure _
    · exact namesFile_macroCloseError ..

theorem namesFile_loopRest (hs : NamesFile s) (var : String) (iterable : DynamicExpr)
    (identity : Option DynamicExpr) (start : Position) :
    NamesFile (loopRest s var iterable identity start) := by
  refine hs.bind fun (body, stop) => ?_
  -- how the body ends decides whether there is an empty case; the loop is made in one way
  have hloop (empty : Option (List Node)) : NamesFile _ :=
    (namesFile_headerFrom "#for" start).bind fun h =>
      namesFile_pure (Node.loop h var iterable identity (Node.arrange body) empty)
  dsimp only
  split
  · exact hloop none
  · refine hs.bind fun (others, stop) => ?_
    dsimp only
    split
    · exact hloop _
    · exact (namesFile_macroCloseError ..).bind hloop
  · exact (namesFile_macroCloseError ..).bind hloop

theorem namesFile_loop (hs : NamesFile s) (args : List Char) (reactive : Bool) (start : Position) :
    NamesFile (loop s args reactive start) := by
  unfold loop
  split
  · exact namesFile_fail ..
  · next var rest _ =>
    dsimp only
    have hrest (e : Expr) (source : List Char) (identity : Option DynamicExpr) : NamesFile _ :=
      namesFile_loopRest hs var (.of e reactive (String.ofList source)) identity start
    split
    · refine (namesFile_expression ..).bind fun e => ?_
      refine (namesFile_expression ..).bind fun e' => ?_
      exact hrest ..
    · refine (namesFile_expression ..).bind fun e => ?_
      exact hrest ..

theorem namesFile_binding (hs : NamesFile s) (args : List Char) (reactive : Bool)
    (start : Position) : NamesFile (binding s args reactive start) := by
  unfold binding
  dsimp only
  split
  · exact namesFile_fail ..
  · refine (namesFile_fail ..).ite ((namesFile_expression ..).bind fun e => ?_)
    refine hs.bind fun (body, stop) => ?_
    dsimp only
    split
    · exact (namesFile_headerFrom ..).bind fun h => namesFile_pure _
    · exact namesFile_macroCloseError ..

theorem namesFile_mustacheBody (hs : NamesFile s) (reactive : Bool) (body : List Char)
    (start : Position) : NamesFile (mustacheBody s reactive body start) := by
  unfold mustacheBody
  split
  · exact namesFile_pure _
  · dsimp only
    have hcondition (args : List Char) : NamesFile (do
        let e ← expression args (start.offset + 2)
        return DynamicExpr.of e reactive (String.ofList args)) :=
      (namesFile_expression ..).bind fun e => namesFile_pure _
    split
    · refine (hcondition _).bind fun first => namesFile_rest.bind fun cs => ?_
      refine (namesFile_branches hs ..).bind fun bs => ?_
      exact (namesFile_headerFrom ..).bind fun h => namesFile_pure _
    · exact (hcondition _).bind fun condition => namesFile_pure _
    · exact namesFile_pure _
    · exact (namesFile_loop hs ..).bind fun n => namesFile_pure _
    · exact (namesFile_binding hs ..).bind fun n => namesFile_pure _
    · exact namesFile_fail ..
  · refine (namesFile_expression ..).bind fun e => ?_
    exact (namesFile_headerFrom ..).bind fun h => namesFile_pure _

theorem namesFile_mustacheItem (hs : NamesFile s) : NamesFile (mustacheItem s) := by
  refine namesFile_here.bind fun start => (namesFile_eat _).bind fun _ => ?_
  refine (namesFile_takeThrough? _).bind fun content => ?_
  cases content with
  | none => exact namesFile_fail ..
  | some content =>
    exact namesFile_mustacheBody hs _ _ start

/-! ## All that is read -/

theorem namesFile_textItem : NamesFile textItem := by
  refine namesFile_here.bind fun start => namesFile_rest.bind fun cs => ?_
  cases cs with
  | nil => exact namesFile_pure _
  | cons c cs =>
    refine (namesFile_skipOver ..).bind fun _ => namesFile_read.bind fun ctx => ?_
    exact (namesFile_pure _).ite ((namesFile_headerFrom ..).bind fun h => namesFile_pure _)

theorem namesFile_commentItem : NamesFile commentItem := by
  refine namesFile_here.bind fun start => (namesFile_takeThrough? _).bind fun comment => ?_
  split
  · exact namesFile_pure _
  · exact namesFile_fail ..

theorem namesFile_closeTagItem : NamesFile closeTagItem := by
  refine namesFile_here.bind fun start => (namesFile_eat _).bind fun _ => ?_
  refine (namesFile_takeWhile _).bind fun name => namesFile_skipBlanks.bind fun _ => ?_
  exact (namesFile_eat _).bind fun closed => (namesFile_pure _).ite (namesFile_fail ..)

theorem namesFile_item (hs : NamesFile s) (top : Bool) : NamesFile (item s top) := by
  refine namesFile_rest.bind fun cs => ?_
  split
  · exact namesFile_pure _
  · exact namesFile_commentItem
  · exact namesFile_closeTagItem
  · exact namesFile_mustacheItem hs
  · exact NamesFile.ite ((namesFile_element hs top).bind fun n => namesFile_pure _) namesFile_textItem

theorem namesFile_nodesAt (steps : Nat) (top : Bool) : NamesFile (nodesAt steps top) := by
  -- what is nested is read with fewer steps, and so are the siblings behind the first item
  induction steps generalizing top with
  | zero => exact namesFile_pure _
  | succ steps ih =>
    refine (namesFile_item (ih false) top).bind fun found => ?_
    cases found with
    | stop stop => exact namesFile_pure _
    | nothing => exact ih top
    | node n => exact (ih top).bind fun siblings => namesFile_pure _

theorem namesFile_template : NamesFile template := by
  refine namesFile_rest.bind fun cs => (namesFile_nodesAt _ true).bind fun (nodes, stop) => ?_
  cases stop with
  | closeTag | elseIf | otherwise | endMark => exact namesFile_fail_bind ..
  | eof =>
    dsimp only
    split
    · exact namesFile_pure _
    · exact namesFile_fail ..
    · exact namesFile_read.bind fun ctx => (namesFile_spanFrom _).bind fun span => namesFile_pure _

end TemplateReader

/-- The error of a template names the file that the template is read from. -/
theorem parseTemplate_file {source : String} {options : ParserOptions} {e : TemplateError}
    (h : parseTemplate source options = .error e) : e.file = options.filename := by
  unfold parseTemplate at h
  dsimp only at h
  cases hread : TemplateReader.template ⟨source.toList, options⟩ ⟨source.toList, .start⟩ with
  | ok read =>
    rw [hread] at h
    cases h
  | error e' =>
    rw [hread] at h
    exact Except.error.inj h ▸ TemplateReader.namesFile_template hread

end ReactiveView
