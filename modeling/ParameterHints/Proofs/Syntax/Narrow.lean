import ParameterHints.Proofs.Syntax.Continuation

/-! # Construction in 32 bits

Offsets and places are numbers of 32 bits. A number that does not fit loses its upper bits, the
largest one stands for no place at all, and a span whose bounds are out of order stops the
construction. None of this shows in a text of fewer than 2 ^ 32 bytes under fewer than 2 ^ 32 - 1
nodes: what is constructed is what comes of numbers without a bound.
-/

namespace ParameterHints.Narrow

/-- The lower 32 bits of a number. -/
def word (n : Nat) : Nat := n % (maxOffset + 1)

/-- The place that an index stands for. -/
def place (n : Nat) : Option Nat := if word n = maxOffset then none else some (word n)

/-- A construction that stops at the first span it cannot make. -/
abbrev Build := StateT Draft (Except SpanError)

def write (text : String) : Build Unit := modify (·.write text)

def offset : Build Nat := return word (← get).offset

/-- The span from an offset to the end of the text. -/
def since (start : Nat) : Build Span := do Span.ofBounds start (← offset)

def add (x : NewNode) : Build NodeRef := do
  let d ← get
  let header := { d.arena.newHeader x with data := place (d.arena.poolSize x.kind) }
  set { d with arena := { d.arena.add x with nodes := d.arena.nodes.push header } }
  return place d.arena.size

def identifier (name : String) : Build NodeRef := do
  let start ← offset
  write name
  add (.identifier name (← since start))

def literal (kind : LiteralKind) (shown value : String) : Build NodeRef := do
  let start ← offset
  write shown
  add (.literal kind value (← since start))

def pathName (qualifier : NodeRef) (name : String) : Build NodeRef := do
  add (.reference qualifier (← identifier name))

def pathNames (qualifier : NodeRef) : List String → Build NodeRef
  | [] => return qualifier
  | name :: rest => do
      write "."
      pathNames (← pathName qualifier name) rest

def path (dotted : String) : Build NodeRef := do
  let (first, others) := Text.splitFirst '.' dotted.toList
  pathNames (← pathName none (String.ofList first)) (others.map String.ofList)

/-- Statements in braces. -/
def closure (body : Build (List NodeRef)) : Build NodeRef := do
  let start ← offset
  write "\x7b "
  let statements ← body
  write " \x7d"
  add (.closure statements (← since start))

/-- Attach a closure to a call. A call that is no place counts as the largest index. -/
def attach (call closure : NodeRef) : Build Unit := modify fun d =>
  { d with arena := (d.arena.attachClosure (some (call.getD maxOffset)) closure).2 }

mutual

def expr : Expr → Build NodeRef
  | .identifier name => identifier name
  | .string value => literal .string ("\"" ++ value ++ "\"") value
  | .number digits => literal .numeric digits digits
  | .path dotted => path dotted
  | .named label value => do
      let labelRef ← identifier label
      write ": "
      add (.namedArgument labelRef (← expr value))
  | .closure body => closure (items body)
  | .call callee list => do
      let start ← offset
      let calleeRef ← path callee
      write "("
      let argumentRefs ← arguments true list
      write ")"
      add (.call calleeRef argumentRefs (← since start))
  | .trailing target body => do
      let targetRef ← expr target
      write " "
      attach targetRef (← closure (items body))
      return targetRef
  | .existing place => return place

def arguments (first : Bool) : List Expr → Build (List NodeRef)
  | [] => return []
  | argument :: rest => do
      unless first do write ", "
      let place ← expr argument
      return place :: (← arguments false rest)

def items : List Item → Build (List NodeRef)
  | [] => return []
  | first :: rest => do
      let places ← item first
      return places ++ (← items rest)

def item : Item → Build (List NodeRef)
  | .text text => do
      write text
      return []
  | .unlisted e => do
      let _ ← expr e
      return []
  | .statement e => return [← expr e]

end

/-- Construct a source file from the start. -/
def sourceFile (list : List Item) : Build SyntaxTree := do
  let statements ← items list
  let root ← add (.sourceFile statements (← since 0))
  let d ← get
  return ⟨d.arena, root, d.source⟩

/-! ## Numbers that fit -/

/-- The text and the number of nodes are within 32 bits. -/
structure Fits (d : Draft) : Prop where
  bytes : d.offset ≤ maxOffset
  nodes : d.arena.size ≤ maxOffset

theorem word_of_le {n : Nat} (h : n ≤ maxOffset) : word n = n := Nat.mod_eq_of_lt (by omega)

theorem place_of_lt {n : Nat} (h : n < maxOffset) : place n = some n := by
  rw [place, word_of_le (Nat.le_of_lt h), if_neg (Nat.ne_of_lt h)]

variable {d written : Draft} {places : List NodeRef}

theorem Fits.before (fits : Fits written) (g : d.Grown places written) : Fits d :=
  ⟨Nat.le_trans g.offset_le fits.bytes, Nat.le_trans g.size_le fits.nodes⟩

theorem Fits.of_write {text : String} (fits : Fits (d.write text)) : Fits d where
  bytes := by
    have bytes := fits.bytes
    rw [Draft.offset_write] at bytes
    omega
  nodes := fits.nodes

theorem Fits.of_add {x : NewNode} (fits : Fits (d.add x).2) : Fits d where
  bytes := fits.bytes
  nodes := by
    have nodes : (d.arena.add x).size ≤ maxOffset := fits.nodes
    rw [Arena.size_add] at nodes
    omega

theorem Fits.of_attach {call closure : NodeRef}
    (fits : Fits { d with arena := (d.arena.attachClosure call closure).2 }) : Fits d where
  bytes := fits.bytes
  nodes := by
    have nodes : (d.arena.attachClosure call closure).2.size ≤ maxOffset := fits.nodes
    rwa [Arena.size_attachClosure] at nodes

theorem run_bind {α β : Type} {first : Build α} {next : α → Build β} {x : α}
    {r : Except SpanError (β × Draft)} (h : first d = .ok (x, written)) (k : next x written = r) :
    (first >>= next) d = r := by
  change (first d).bind (fun (x, d) => next x d) = r
  rw [h]
  exact k

theorem run_offset (fits : Fits d) : offset d = .ok (d.offset, d) := by
  change Except.ok (word d.offset, d) = _
  rw [word_of_le fits.bytes]

theorem run_since {start : Nat} (fits : Fits d) (le : start ≤ d.offset) :
    since start d = .ok (⟨start, d.offset⟩, d) := by
  refine run_bind (run_offset fits) ?_
  rw [Span.ofBounds_of_le le]
  rfl

theorem run_add (pooled : d.Pooled) (x : NewNode) (fits : Fits (d.add x).2) :
    add x d = .ok (d.add x) := by
  have size : d.arena.size < maxOffset := by
    have nodes : (d.arena.add x).size ≤ maxOffset := fits.nodes
    rw [Arena.size_add] at nodes
    exact nodes
  have pool : d.arena.poolSize x.kind < maxOffset :=
    Nat.lt_of_le_of_lt (pooled x.kind) size
  change Except.ok (place d.arena.size, { d with arena := { d.arena.add x with
    nodes := d.arena.nodes.push { d.arena.newHeader x with
      data := place (d.arena.poolSize x.kind) } } }) = _
  rw [place_of_lt size, place_of_lt pool]
  change Except.ok (_, { d with arena := { d.arena.add x with
    nodes := d.arena.nodes.push (d.arena.newHeader x) } }) = _
  rw [← Arena.nodes_add]
  rfl

/-- A node over what was written since `d`. -/
theorem run_add_since (le : d.offset ≤ written.offset) (pooled : written.Pooled)
    {x : Span → NewNode} (fits : Fits (written.add (x ⟨d.offset, written.offset⟩)).2) :
    (do add (x (← since d.offset))) written =
      .ok (written.add (x ⟨d.offset, written.offset⟩)) :=
  run_bind (run_since fits.of_add le) (run_add pooled _ fits)

/-! ## Runs

The draft before every step fits because drafts only grow, and no pool is larger than the number of
nodes. So each construction is followed through its steps from the end. -/

/-- A node over a text that is written just before it. -/
theorem run_written (pooled : d.Pooled) (text : String) (x : Span → NewNode)
    (fits : Fits ((d.write text).add (x ⟨d.offset, (d.write text).offset⟩)).2) :
    (do let start ← offset; write text; add (x (← since start))) d =
      .ok ((d.write text).add (x ⟨d.offset, (d.write text).offset⟩)) := by
  have le : d.offset ≤ (d.write text).offset := by
    rw [Draft.offset_write]
    exact Nat.le_add_right _ _
  refine run_bind (run_offset fits.of_add.of_write) (run_bind rfl ?_)
  exact run_add_since le ((Draft.Leads.refl.write text).pooled pooled) fits

theorem run_identifier (pooled : d.Pooled) (name : String) (fits : Fits (d.identifier name).2) :
    identifier name d = .ok (d.identifier name) :=
  run_written pooled name (.identifier name ·) fits

theorem run_literal (pooled : d.Pooled) (kind : LiteralKind) (shown value : String)
    (fits : Fits (d.literal kind shown value).2) :
    literal kind shown value d = .ok (d.literal kind shown value) :=
  run_written pooled shown (.literal kind value ·) fits

theorem run_pathName (pooled : d.Pooled) (qualifier : NodeRef) (name : String)
    (fits : Fits (d.pathName qualifier name).2) :
    pathName qualifier name d = .ok (d.pathName qualifier name) :=
  run_bind (run_identifier pooled name fits.of_add)
    (run_add ((Draft.identifier_leads d name).pooled pooled) _ fits)

theorem Fits.of_pathNames {qualifier : NodeRef} (names : List String)
    (fits : Fits (d.pathNames qualifier names).2) : Fits d := by
  induction names generalizing d qualifier with
  | nil => exact fits
  | cons name rest ih => exact (ih fits).of_add.of_add.of_write.of_write

theorem run_pathNames (pooled : d.Pooled) (qualifier : NodeRef) (names : List String)
    (fits : Fits (d.pathNames qualifier names).2) :
    pathNames qualifier names d = .ok (d.pathNames qualifier names) := by
  induction names generalizing d qualifier with
  | nil => rfl
  | cons name rest ih =>
      have dotted : (d.write ".").Pooled := (Draft.Leads.refl.write ".").pooled pooled
      refine run_bind rfl (run_bind (run_pathName dotted qualifier name ?_) ?_)
      · exact Fits.of_pathNames rest fits
      · exact ih ((Draft.pathName_leads _ qualifier name).pooled dotted) _ fits

theorem run_path (pooled : d.Pooled) (dotted : String) (fits : Fits (d.path dotted).2) :
    path dotted d = .ok (d.path dotted) :=
  run_bind (run_pathName pooled none _ (Fits.of_pathNames _ fits))
    (run_pathNames ((Draft.pathName_leads d none _).pooled pooled) _ _ fits)

theorem run_closure (wf : d.WellFormed) {body : Build (List NodeRef)}
    (run : body (d.write "\x7b ") = .ok (places, written))
    (g : (d.write "\x7b ").Grown places written)
    (fits : Fits ((written.write " \x7d").add
      (.closure places ⟨d.offset, (written.write " \x7d").offset⟩)).2) :
    closure body d = .ok ((written.write " \x7d").add
      (.closure places ⟨d.offset, (written.write " \x7d").offset⟩)) := by
  have all : d.Grown places (written.write " \x7d") :=
    ((Draft.Grown.written wf "\x7b ").append g).write " \x7d"
  refine run_bind (run_offset (fits.of_add.before all)) ?_
  refine run_bind rfl (run_bind run (run_bind rfl ?_))
  exact run_add_since all.offset_le all.wellFormed.pooled (x := (.closure places ·)) fits

theorem run_attach {call closure : NodeRef} {i : Nat} (index : call = some i) :
    attach call closure d =
      .ok ((), { d with arena := (d.arena.attachClosure call closure).2 }) := by
  subst index
  rfl

mutual

theorem run_expr {d : Draft} (wf : d.WellFormed) (e : Expr) (own : e.selfContained)
    (fits : Fits (d.expr e).2) : expr e d = .ok (d.expr e) := by
  cases e with
  | identifier name => exact run_identifier wf.pooled name fits
  | string value => exact run_literal wf.pooled .string _ value fits
  | number digits => exact run_literal wf.pooled .numeric digits digits fits
  | path dotted => exact run_path wf.pooled dotted fits
  | named label value =>
      have labelled := (Draft.identifier_built wf label).wellFormed.write ": "
      have b := Draft.expr_built _ labelled value own
      have fitsValue := fits.of_add
      refine run_bind (run_identifier wf.pooled label (fitsValue.before b.toGrown).of_write) ?_
      refine run_bind rfl (run_bind (run_expr labelled value own fitsValue) ?_)
      exact run_add b.wellFormed.pooled _ fits
  | closure body =>
      have opened := wf.write "\x7b "
      exact run_closure wf (run_items opened body own fits.of_add.of_write)
        (Draft.items_grown _ opened body own) fits
  | call callee list =>
      have b := Draft.path_built wf callee
      obtain ⟨g, -⟩ := Draft.arguments_grown (d.path callee).2 _ true
        (.written b.wellFormed "(") (fun _ => Draft.separated_write _ [] (.inl rfl)) list own
      have all := (b.toGrown.append g).write ")"
      have fitsList := fits.of_add.of_write
      refine run_bind (run_offset (fits.of_add.before all)) ?_
      refine run_bind (run_path wf.pooled callee (fitsList.before g)) (run_bind rfl ?_)
      refine run_bind (run_arguments (b.wellFormed.write "(") true list own fitsList) ?_
      exact run_bind rfl
        (run_add_since all.offset_le all.wellFormed.pooled (x := (.call _ _ ·)) fits)
  | trailing target body =>
      rw [Expr.selfContained, Bool.and_eq_true] at own
      have b := Draft.expr_built d wf target own.1
      have opened := b.wellFormed.write " "
      have bodyOpened := opened.write "\x7b "
      have g := Draft.items_grown _ bodyOpened body own.2
      have k := Draft.closure_built opened g
      have fitsClosure := fits.of_attach
      obtain ⟨n, here, -⟩ := b.live List.mem_cons_self
      obtain ⟨i, index, -⟩ := Arena.index_lt_size here
      refine run_bind (run_expr wf target own.1 ?_) (run_bind rfl ?_)
      · exact (fitsClosure.before k.toGrown).of_write
      refine run_bind (run_closure opened (run_items bodyOpened body own.2 ?_) g fitsClosure) ?_
      · exact fitsClosure.of_add.of_write
      · exact run_bind (run_attach index) rfl
  | existing place => cases own
termination_by sizeOf e

theorem run_arguments {d : Draft} (wf : d.WellFormed) (first : Bool) (es : List Expr)
    (own : Expr.allSelfContained es) (fits : Fits (d.arguments first es).2) :
    arguments first es d = .ok (d.arguments first es) := by
  cases es with
  | nil => rfl
  | cons e rest =>
      rw [Expr.allSelfContained, Bool.and_eq_true] at own
      cases first with
      | true =>
          have b := Draft.expr_built d wf e own.1
          obtain ⟨g, -⟩ := Draft.arguments_grown _ _ false (.refl b.wellFormed) (by simp) rest own.2
          refine run_bind (run_expr wf e own.1 (fits.before g)) ?_
          exact run_bind (run_arguments b.wellFormed false rest own.2 fits) rfl
      | false =>
          have comma := wf.write ", "
          have b := Draft.expr_built _ comma e own.1
          obtain ⟨g, -⟩ := Draft.arguments_grown _ _ false (.refl b.wellFormed) (by simp) rest own.2
          refine run_bind rfl (run_bind (run_expr comma e own.1 (fits.before g)) ?_)
          exact run_bind (run_arguments b.wellFormed false rest own.2 fits) rfl
termination_by sizeOf es

theorem run_items {d : Draft} (wf : d.WellFormed) (is : List Item) (own : Item.allSelfContained is)
    (fits : Fits (d.items is).2) : items is d = .ok (d.items is) := by
  cases is with
  | nil => rfl
  | cons first rest =>
      rw [Item.allSelfContained, Bool.and_eq_true] at own
      have g := Draft.item_grown d wf first own.1
      have k := Draft.items_grown _ g.wellFormed rest own.2
      refine run_bind (run_item wf first own.1 (fits.before k)) ?_
      exact run_bind (run_items g.wellFormed rest own.2 fits) rfl
termination_by sizeOf is

theorem run_item {d : Draft} (wf : d.WellFormed) (i : Item) (own : i.selfContained)
    (fits : Fits (d.item i).2) : item i d = .ok (d.item i) := by
  cases i with
  | text text => rfl
  | unlisted e => exact run_bind (run_expr wf e own fits) rfl
  | statement e => exact run_bind (run_expr wf e own fits) rfl
termination_by sizeOf i

end

/-- Numbers of 32 bits are enough for a tree that fits. -/
theorem run_sourceFile {list : List Item} (own : Item.allSelfContained list)
    (bytes : (SyntaxTree.ofItems list).source.utf8ByteSize ≤ maxOffset)
    (nodes : (SyntaxTree.ofItems list).arena.size ≤ maxOffset) :
    (sourceFile list).run' Draft.empty = .ok (SyntaxTree.ofItems list) := by
  have g := Draft.items_grown .empty .empty list own
  have fits : Fits (Draft.finished list) := ⟨bytes, nodes⟩
  have run : sourceFile list .empty = .ok (SyntaxTree.ofItems list, Draft.finished list) := by
    refine run_bind (run_items .empty list own fits.of_add) ?_
    refine run_bind (run_since fits.of_add (Nat.zero_le _)) ?_
    exact run_bind (run_add g.wellFormed.pooled _ fits) rfl
  change (sourceFile list .empty).map Prod.fst = _
  rw [run]
  rfl

end ParameterHints.Narrow
