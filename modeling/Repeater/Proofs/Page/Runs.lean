/-
  Repeater/Proofs/Page/Runs.lean
  ==============================
  **Pages in use.**

  An embedder makes a page over a document and then uses it: attaches and starts scopes, clicks,
  adds items from data, registers hooks and edits the document, in any order (`Page.Reaches`). The
  hooks may fail and may edit the document themselves, at any time. Whatever is done, the page stays
  orderly (`reaches_orderly`): the registry holds one listener for each started scope and one for
  each wired item at most, so that one click counts one item for a scope at most.
-/
import Repeater.Proofs.Dom.Documents
import Repeater.Proofs.Page.Keeping

namespace Repeater

open Dom Hook Markup Scope Stamp Tree

variable {σ : Type}

namespace Page

/-! ## Uses of a page -/

/-- What an embedder can do with a page. -/
inductive Operation (σ : Type) where
  | attach (root : NodeId)
  | discover
  | start (number : Nat)
  | startAll
  | click (target : NodeId)
  | addFromData (number : Nat) (data : List (String × String))
  | registerRoutines (number : Nat) (routines : Routines σ)
  | registerAfterStart (number : Nat) (routine : Routine σ)
  | registerCallback (name : String) (callback : Callback σ)
  /-- An edit of the document, which may be refused. -/
  | edit (operation : Dom.Operation)

namespace Operation

def apply (page : Page σ) : Operation σ → Page σ
  | attach root => (page.attach root).1
  | discover => page.discover.1
  | start number => page.start number
  | startAll => page.startAll
  | click target => (page.click target).1
  | addFromData number data => page.addFromData number data
  | registerRoutines number routines => page.registerRoutines number routines
  | registerAfterStart number routine => page.registerAfterStart number routine
  | registerCallback name callback => page.registerCallback name callback
  | edit operation =>
    { page with document := { page.document with tree := operation.apply page.tree } }

/-- Whether what is registered edits the document by its operations only. -/
def Tame : Operation σ → Prop
  | registerRoutines _ routines => routines.Within Edited
  | registerAfterStart _ routine => routine.Tame
  | registerCallback _ callback => callback.Tame
  | _ => True

end Operation

/-- Whether a page can become another one in use. -/
def Reaches : Page σ → Page σ → Prop :=
  Relation.ReflTransGen fun page page' =>
    ∃ operation : Operation σ, operation.Tame ∧ page' = operation.apply page

/-- A page that has just been made over a document. -/
structure New (page : Page σ) : Prop where
  document : Tree.empty.Edited page.tree
  scopes : page.scopes = #[]
  listeners : page.listeners = {}
  callbacks : page.callbacks = {}

variable {page page' : Page σ} {n : Nat} {scope : Scope σ} {desk desk' : Desk σ}

/-- The page over markup that has been read, with a host that says yes to everything. -/
def ofMarkup (top : List ParseNode) : Page Unit where
  document := documentOf "about:blank" top
  host := .auto
  outside := { state := () }

theorem new_ofMarkup (top : List ParseNode) : (ofMarkup top).New :=
  ⟨edited_documentOf _ top, rfl, rfl, rfl⟩

theorem New.kept (h : page.New) : page.Kept := by
  have hnone : ∀ n : Nat, page.scopes[n]? = none := by
    intro n
    rw [h.scopes]
    rfl
  constructor
  case wellFormed => exact h.document.wellFormed wellFormed_empty
  case number => simp [hnone]
  case root => simp [hnone]
  case settled => simp [hnone]
  case wired =>
    have htrigger : page.triggerOf = fun _ => none := by
      funext n
      unfold triggerOf
      rw [hnone]
      rfl
    rw [htrigger, h.listeners]
    exact Wired.empty _
  case callbacks =>
    rw [h.callbacks]
    intro entry hentry
    cases hentry

theorem Kept.apply (h : page.Kept) (operation : Operation σ) (htame : operation.Tame) :
    (operation.apply page).Kept := by
  cases operation with
  | attach root => exact h.attach root
  | discover => exact h.discover
  | start number => exact h.start number
  | startAll => exact h.startAll
  | click target => exact h.click target
  | addFromData number data => exact h.addFromData number data
  | registerRoutines number routines => exact h.registerRoutines number htame
  | registerAfterStart number routine => exact h.registerAfterStart number htame
  | registerCallback name callback => exact h.registerCallback name htame
  | edit operation => exact h.withTree (Edited.one page.tree operation).grown

theorem Reaches.step (hreaches : page.Reaches page') (operation : Operation σ)
    (htame : operation.Tame) : page.Reaches (operation.apply page') :=
  hreaches.tail ⟨operation, htame, rfl⟩

theorem Reaches.foldl (hreaches : page.Reaches page') {operations : List (Operation σ)}
    (htame : ∀ operation ∈ operations, operation.Tame) :
    page.Reaches (operations.foldl Operation.apply page') := by
  induction operations generalizing page' with
  | nil => exact hreaches
  | cons operation rest ih =>
    exact ih (hreaches.step operation (htame operation (by simp)))
      fun other hother => htame other (by simp [hother])

theorem Reaches.kept (hreaches : page.Reaches page') (h : page.Kept) : page'.Kept := by
  induction hreaches with
  | refl => exact h
  | tail _ hstep ih =>
    obtain ⟨operation, htame, rfl⟩ := hstep
    exact ih.apply operation htame

/-! ## The host -/

theorem host_withScope (page : Page σ) (n : Nat) (operation : String)
    (flow : Equipment σ → Flow σ Unit) : (page.withScope n operation flow).host = page.host := by
  rcases hscope : page.scopes[n]? with _ | scope
  · obtain ⟨line, hline⟩ := withScope_of_none operation flow hscope
    rw [hline]
    rfl
  · rcases withScope_of_scope operation flow hscope with hback | ⟨line, hback⟩
    all_goals
      rw [hback]
      rfl

theorem host_attachAll (page : Page σ) (roots : List NodeId) :
    (page.attachAll roots).1.host = page.host := by
  induction roots generalizing page with
  | nil => rfl
  | cons root rest ih =>
    refine (ih (page.attach root).1).trans ?_
    unfold attach
    split <;> rfl

theorem host_perform (page : Page σ) (event : Event) (action : Action) :
    (page.perform event action).host = page.host := by
  cases action <;> exact host_withScope ..

theorem host_foldl {α : Type} {step : Page σ → α → Page σ}
    (hstep : ∀ page a, (step page a).host = page.host) (page : Page σ) (as : List α) :
    (as.foldl step page).host = page.host := by
  induction as generalizing page with
  | nil => rfl
  | cons a rest ih => exact (ih (step page a)).trans (hstep page a)

theorem host_changeScope (page : Page σ) (n : Nat) (f : Scope σ → Scope σ) :
    (page.changeScope n f).host = page.host := by
  unfold changeScope
  split <;> rfl

/-- A page talks to one host all its life. -/
theorem Reaches.host (hreaches : page.Reaches page') : page'.host = page.host := by
  induction hreaches with
  | refl => rfl
  | tail _ hstep ih =>
    obtain ⟨operation, -, rfl⟩ := hstep
    refine Eq.trans ?_ ih
    have hstart (page : Page σ) (n : Nat) : (page.start n).host = page.host := host_withScope ..
    cases operation with
    | attach root => exact host_attachAll _ [root]
    | discover => exact host_attachAll ..
    | start n => exact hstart _ n
    | startAll => exact (host_foldl hstart ..).trans (host_attachAll ..)
    | click target => exact host_foldl (fun page _ => host_foldl (host_perform · _) page _) ..
    | addFromData n data => exact host_withScope ..
    | registerRoutines n routines => exact host_changeScope ..
    | registerAfterStart n routine => exact host_changeScope ..
    | registerCallback name callback => rfl
    | edit operation => rfl

/-! ## The listeners of triggers -/

/-- The listeners that add an item to a scope. -/
def adders (n : Nat) (ls : Listeners Action) : List (Listener Action) :=
  ls.entries.filter fun l => l.handler = .add n

theorem adders_without (n : Nat) (item : NodeId) (ls : Listeners Action) :
    adders n (without item ls) = adders n ls := by
  unfold adders without Listeners.retain
  rw [List.filter_filter]
  apply List.filter_congr
  intro l _
  by_cases hl : l.handler = .add n <;> simp [hl, Action.deletes?]

theorem adders_append {n m : Nat} {ls ls' : Listeners Action} {added : List (Listener Action)}
    {items : List NodeId} (hentries : ls'.entries = ls.entries ++ added)
    (hsub : (added.map (·.handler)).Sublist (items.map (.delete m))) :
    adders n ls' = adders n ls := by
  unfold adders
  rw [hentries, List.filter_append]
  have hnone : added.filter (fun l => l.handler = .add n) = [] := by
    rw [List.filter_eq_nil_iff]
    intro l hl
    obtain ⟨item, -, hhandler⟩ := Wired.handler_of_sublist hsub hl
    simp [hhandler]
  rw [hnone, List.append_nil]

/-- No two listeners do the same. -/
theorem Kept.filter_handler (h : page.Kept) (action : Action) :
    (page.listeners.entries.filter fun l => l.handler = action).length ≤ 1 := by
  have hcount := List.nodup_iff_count_le_one.1 h.wired.distinct action
  rw [List.count_eq_countP, List.countP_map, List.countP_eq_length_filter] at hcount
  refine Nat.le_trans (Nat.le_of_eq ?_) hcount
  congr 1

theorem Kept.adders_started (h : page.Kept) (hscope : page.scopes[n]? = some scope) {parts : Parts}
    (hparts : scope.parts = some parts) :
    ∃ l, adders n page.listeners = [l] ∧ l.target = parts.trigger ∧ l.kind = .click := by
  have htrigger : page.triggerOf n = some parts.trigger := by
    rw [triggerOf_of_scope hscope, hparts, Option.map_some]
  obtain ⟨l, hl, hhandler⟩ := h.wired.present n _ htrigger
  have hmem : l ∈ adders n page.listeners := List.mem_filter.2 ⟨hl, by simpa using hhandler⟩
  have hlength : (adders n page.listeners).length = 1 :=
    Nat.le_antisymm (h.filter_handler (.add n)) (List.length_pos_of_mem hmem)
  obtain ⟨l', hl'⟩ := List.length_eq_one_iff.1 hlength
  rw [hl', List.mem_singleton] at hmem
  obtain ⟨htarget, hkind⟩ := h.wired.onTrigger l hl n hhandler
  rw [htrigger, Option.some.injEq] at htarget
  exact ⟨l, hmem ▸ hl', htarget.symm, hkind⟩

/-! ## What a click counts -/

/-- What a flow does to the counter of its scope and to the listeners of triggers. -/
structure Counts (most : Nat) (desk desk' : Desk σ) : Prop where
  least : desk.scope.counter ≤ desk'.scope.counter
  most : desk'.scope.counter ≤ desk.scope.counter + most
  adders : ∀ n, adders n desk'.listeners = adders n desk.listeners

theorem counts_of_added {equipment : Equipment σ} (h : AddedOrStaged equipment desk desk') :
    Counts 1 desk desk' := by
  rcases h with hstaged | ⟨-, -, items, hcounted, -⟩
  · refine ⟨?_, ?_, ?_⟩
    · rw [hstaged.scope]
    · rw [hstaged.scope]
      omega
    · intro n
      rw [hstaged.listeners]
  · obtain ⟨added, hentries, hsub⟩ := hcounted.entries
    refine ⟨?_, ?_, ?_⟩
    · rw [hcounted.scope]
      exact Nat.le_succ _
    · rw [hcounted.scope]
    · intro n
      exact adders_append hentries hsub

theorem counts_of_deleted {item : NodeId} (h : Deleted Grown item desk desk') : Counts 0 desk desk' := by
  refine ⟨?_, ?_, ?_⟩
  · rw [h.scope]
  · rw [h.scope]
    exact Nat.le_refl _
  · intro n
    rcases h.listeners with hls | hls
    · rw [hls]
    · rw [hls, adders_without]

/-- How far the counter of a scope and the listeners of triggers are from one page to the next. -/
structure CountsTo (n most : Nat) (page page' : Page σ) : Prop where
  counter : ∀ scope : Scope σ, page.scopes[n]? = some scope → ∃ scope' : Scope σ,
    page'.scopes[n]? = some scope' ∧ scope.counter ≤ scope'.counter ∧
      scope'.counter ≤ scope.counter + most
  adders : adders n page'.listeners = adders n page.listeners

theorem CountsTo.refl (n : Nat) (page : Page σ) : CountsTo n 0 page page :=
  ⟨fun scope hscope => ⟨scope, hscope, Nat.le_refl _, Nat.le_refl _⟩, rfl⟩

theorem CountsTo.trans {page₁ page₂ : Page σ} {most most' : Nat} (h : CountsTo n most page page₁)
    (h' : CountsTo n most' page₁ page₂) : CountsTo n (most + most') page page₂ := by
  refine ⟨?_, h'.adders.trans h.adders⟩
  intro scope hscope
  obtain ⟨scope₁, hscope₁, hle, hmost⟩ := h.counter scope hscope
  obtain ⟨scope₂, hscope₂, hle', hmost'⟩ := h'.counter scope₁ hscope₁
  exact ⟨scope₂, hscope₂, by omega, by omega⟩

theorem countsTo_withScope {m most : Nat} (operation : String) (flow : Equipment σ → Flow σ Unit)
    (hflow : ∀ scope, page.scopes[m]? = some scope →
      Counts most (page.desk scope) (exec (flow page.equipment) (page.desk scope)).2) :
    CountsTo n (if m = n then most else 0) page (page.withScope m operation flow) := by
  rcases hscope : page.scopes[m]? with _ | scope
  · obtain ⟨line, hline⟩ := withScope_of_none operation flow hscope
    rw [hline]
    refine ⟨?_, rfl⟩
    intro scope hn
    exact ⟨scope, hn, Nat.le_refl _, Nat.le_add_right _ _⟩
  · have hcounts := hflow scope hscope
    have hscopes := scopes_putBack page hscope
      (exec (flow page.equipment) (page.desk scope)).2
    have hback : CountsTo n (if m = n then most else 0) page
        (page.putBack m (exec (flow page.equipment) (page.desk scope)).2) := by
      refine ⟨?_, hcounts.adders n⟩
      intro scope' hscope'
      rw [hscopes]
      by_cases hmn : n = m
      · subst hmn
        rw [hscope, Option.some.injEq] at hscope'
        subst hscope'
        rw [if_pos rfl, if_pos rfl]
        exact ⟨_, rfl, hcounts.least, hcounts.most⟩
      · rw [if_neg hmn]
        exact ⟨scope', hscope', Nat.le_refl _, Nat.le_add_right _ _⟩
    rcases withScope_of_scope operation flow hscope with hrun | ⟨line, hrun⟩
    · rw [hrun]
      exact hback
    · rw [hrun]
      exact ⟨hback.counter, hback.adders⟩

theorem Kept.countsTo_perform (h : page.Kept) (event : Event) (action : Action) :
    CountsTo n (if action = .add n then 1 else 0) page (page.perform event action) := by
  cases action with
  | add m =>
    have hcounts := countsTo_withScope (n := n) "add" (handleAdd · event)
      fun scope hscope => counts_of_added (TameHooks.handleAdd (page.desk scope)
        (h.tameHooks hscope) h.wellFormed (h.settled m scope hscope).idle event)
    simp only [Action.add.injEq]
    exact hcounts
  | delete m item =>
    have hcounts := countsTo_withScope (n := n) "delete" (handleDelete · event item)
      fun scope hscope => counts_of_deleted (TameHooks.handleDelete (page.desk scope)
        (h.tameHooks hscope) (h.settled m scope hscope).idle event item)
    rw [ite_self] at hcounts
    exact hcounts

theorem Kept.countsTo_performAll (h : page.Kept) (event : Event) (actions : List Action) :
    CountsTo n (actions.count (.add n)) page (actions.foldl (Page.perform event) page) := by
  induction actions generalizing page with
  | nil => exact .refl n page
  | cons action rest ih =>
    have hone := h.countsTo_perform (n := n) event action
    have hrest := ih (h.perform event action)
    rw [List.count_cons, Nat.add_comm]
    have hboth := hone.trans hrest
    simpa [beq_iff_eq] using hboth

/-- How many listeners on a node add to the scope. -/
theorem count_on (n : Nat) (ls : Listeners Action) (node : NodeId) (kind : EventKind) :
    ((ls.on node kind).map (·.handler)).count (.add n) =
      (adders n ls).countP fun l => l.target = node && l.kind = kind := by
  unfold adders Listeners.on
  rw [List.count_eq_countP, List.countP_map, List.countP_filter, List.countP_filter]
  apply List.countP_congr
  intro l _
  simp [and_comm]

theorem Kept.countsTo_arriveAll (h : page.Kept) (event : Event) (path : List NodeId) :
    CountsTo n (total (path.map fun node => (adders n page.listeners).countP fun l =>
      l.target = node && l.kind = event.kind)) page (path.foldl (Page.arrive event) page) := by
  induction path generalizing page with
  | nil => exact .refl n page
  | cons node rest ih =>
    have hone : CountsTo n ((adders n page.listeners).countP fun l =>
        l.target = node && l.kind = event.kind) page (page.arrive event node) := by
      rw [← count_on]
      exact h.countsTo_performAll _ _
    have hrest := ih (h.arrive event node)
    rw [hone.adders] at hrest
    exact hone.trans hrest

theorem countP_target_eq_zero {ls : List (Listener Action)} {node : NodeId} {kind : EventKind}
    (h : ∀ l ∈ ls, l.target ≠ node) :
    (ls.countP fun l => l.target = node && l.kind = kind) = 0 := by
  apply List.countP_eq_zero.2
  intro l hl
  simp [h l hl]

theorem total_countP_eq_zero {path : List NodeId} {ls : List (Listener Action)} {kind : EventKind}
    (h : ∀ l ∈ ls, l.target ∉ path) :
    total (path.map fun node => ls.countP fun l => l.target = node && l.kind = kind) = 0 := by
  induction path with
  | nil => rfl
  | cons node rest ih =>
    have hnone : ∀ l ∈ ls, l.target ≠ node := fun l hl hsame => h l hl (by simp [hsame])
    rw [List.map_cons, total, countP_target_eq_zero hnone, Nat.zero_add]
    exact ih fun l hl hrest => h l hl (List.mem_cons_of_mem _ hrest)

/-- One listener is met once at most on a path that meets no node twice. -/
theorem total_countP_le_one {path : List NodeId} (hpath : path.Nodup) {ls : List (Listener Action)}
    (hls : ls.length ≤ 1) (kind : EventKind) :
    total (path.map fun node => ls.countP fun l => l.target = node && l.kind = kind) ≤ 1 := by
  induction path with
  | nil => exact Nat.zero_le 1
  | cons node rest ih =>
    rw [List.nodup_cons] at hpath
    rw [List.map_cons, total]
    by_cases hmet : ∃ l ∈ ls, l.target = node
    · obtain ⟨l, hl, rfl⟩ := hmet
      have hzero : total (rest.map fun node => ls.countP fun l =>
          l.target = node && l.kind = kind) = 0 := by
        apply total_countP_eq_zero
        intro other hother
        have hsame : other = l := by
          match ls, hls, hl, hother with
          | [_], _, hl, hother => rw [List.mem_singleton.1 hl, List.mem_singleton.1 hother]
        rw [hsame]
        exact hpath.1
      rw [hzero]
      exact Nat.le_trans List.countP_le_length hls
    · have hnone : ∀ l ∈ ls, l.target ≠ node := fun l hl hsame => hmet ⟨l, hl, hsame⟩
      rw [countP_target_eq_zero hnone, Nat.zero_add]
      exact ih hpath.2

theorem Kept.countsTo_click (h : page.Kept) (target : NodeId) :
    CountsTo n 1 page (page.click target).1 := by
  have hpath : (target :: page.tree.ancestors target).Nodup := by
    rw [List.nodup_cons]
    refine ⟨?_, nodup_ancestors h.wellFormed target⟩
    rw [mem_ancestors h.wellFormed]
    exact h.wellFormed.acyclic target
  have hcounts := h.countsTo_arriveAll (n := n) (Event.click target)
    (target :: page.tree.ancestors target)
  refine ⟨?_, hcounts.adders⟩
  intro scope hscope
  obtain ⟨scope', hscope', hleast, hmost⟩ := hcounts.counter scope hscope
  have := total_countP_le_one hpath (h.filter_handler (.add n)) (Event.click target).kind
  exact ⟨scope', hscope', hleast, Nat.le_trans hmost (Nat.add_le_add_left this _)⟩

/-! ## Orderly pages -/

/-- What can be relied on between the operations of a page. -/
structure Orderly (page : Page σ) : Prop where
  number : ∀ (n : Nat) (scope : Scope σ), page.scopes[n]? = some scope → scope.number = n
  root : ∀ (m n : Nat) (scope scope' : Scope σ), page.scopes[m]? = some scope →
    page.scopes[n]? = some scope' → scope.root = scope'.root → m = n
  idle : ∀ (n : Nat) (scope : Scope σ), page.scopes[n]? = some scope → scope.activity = .idle
  resolved : ∀ (n : Nat) (scope : Scope σ), page.scopes[n]? = some scope →
    scope.identifier.isSome = scope.started ∧ scope.parts.isSome = scope.started
  /-- The trigger of a started scope, and nothing else, is wired for adding, once. -/
  started : ∀ (n : Nat) (scope : Scope σ), page.scopes[n]? = some scope → scope.started = true →
    ∃ parts l, scope.parts = some parts ∧ adders n page.listeners = [l] ∧
      l.target = parts.trigger ∧ l.kind = .click
  unstarted : ∀ n : Nat, (∀ scope : Scope σ, page.scopes[n]? = some scope → scope.started = false) →
    ∀ l ∈ page.listeners.entries, l.handler.scope ≠ n
  /-- An item is wired for its deletion once at most. -/
  deletes : ∀ (n : Nat) (item : NodeId),
    (page.listeners.entries.filter fun l => l.handler = .delete n item).length ≤ 1

theorem Kept.orderly (h : page.Kept) : page.Orderly := by
  constructor
  case number => exact h.number
  case root => exact h.root
  case idle => exact fun n scope hscope => (h.settled n scope hscope).idle
  case resolved =>
    intro n scope hscope
    exact ⟨(h.settled n scope hscope).identifier, (h.settled n scope hscope).parts⟩
  case started =>
    intro n scope hscope hstarted
    have hparts := (h.settled n scope hscope).parts
    rw [hstarted] at hparts
    obtain ⟨parts, hparts⟩ := Option.isSome_iff_exists.1 hparts
    obtain ⟨l, hl, htarget, hkind⟩ := h.adders_started hscope hparts
    exact ⟨parts, l, hparts, hl, htarget, hkind⟩
  case unstarted =>
    intro n hnone l hl hn
    have hsome : (page.triggerOf l.handler.scope).isSome = true := by
      cases hhandler : l.handler with
      | add m =>
        have htrigger := (h.wired.onTrigger l hl m hhandler).1
        simp [Action.scope, htrigger]
      | delete m item => exact (h.wired.onItem l hl m item hhandler).1
    rw [hn] at hsome
    obtain ⟨scope, hscope, hparts⟩ := isSome_triggerOf.1 hsome
    rw [(h.settled n scope hscope).parts, hnone scope hscope] at hparts
    cases hparts
  case deletes => exact fun n item => h.filter_handler (.delete n item)

/-- A page that has been made over a document stays orderly in any use, and a click counts at most
    one item for each scope. -/
theorem reaches_orderly (hnew : page.New) (hreaches : page.Reaches page') :
    page'.Orderly ∧ ∀ (target : NodeId) (n : Nat) (scope : Scope σ),
      page'.scopes[n]? = some scope → ∃ scope' : Scope σ,
        (page'.click target).1.scopes[n]? = some scope' ∧ scope.counter ≤ scope'.counter ∧
          scope'.counter ≤ scope.counter + 1 := by
  have hkept := hreaches.kept hnew.kept
  refine ⟨hkept.orderly, ?_⟩
  intro target n scope hscope
  exact (hkept.countsTo_click target).counter scope hscope

/-- The markup of one scope: its template, with what it holds as given, its container, and its
    trigger, with hook code as given. -/
def listMarkup (items : List ParseNode) (hooks : List Attribute) : List ParseNode :=
  [.element "div" [⟨"stamper", "list"⟩] [] [
    .element "template" [⟨"s-temp", "list"⟩] items [],
    .element "ul" [⟨"s-crate", "list"⟩] [] [],
    .element "button" (⟨"s-cast", "list"⟩ :: hooks) [] []]]

/-- An item that shows its number and has it in its id. -/
def numberedItem : ParseNode :=
  .element "li" [⟨"s-index", "id"⟩, ⟨"id", "item{{index}}"⟩] [] [
    .element "b" [⟨"s-sequence", "00"⟩] [] []]

theorem reaches_orderly_list :
    let page := ofMarkup (listMarkup [numberedItem] [])
    let page' := (page.startAll.click (.slot 7)).1
    page.New ∧ page.Reaches page' ∧ page'.Orderly ∧
      page'.scopes.toList.map (·.counter) = [1] := by
  intro page page'
  have hstarted : page.Reaches page.startAll :=
    Reaches.step Relation.ReflTransGen.refl .startAll trivial
  have hclicked : page.Reaches page' := hstarted.step (.click (.slot 7)) trivial
  refine ⟨new_ofMarkup _, hclicked, (reaches_orderly (new_ofMarkup _) hclicked).1, ?_⟩
  decide +kernel

end Page

end Repeater
