/-
  Repeater/Proofs/Page/Ledger.lean
  ================================
  **A list and a counter.**

  However a page is used after its scopes have been started, a scope is a list and a counter, as
  long as its container is its own and the hooks leave the tree alone. Each addition that goes
  through is an entry in a ledger and counts one. The items of clicks are last in the container, in
  the order of the entries; deletions strike items out; nothing else touches either. What an item
  shows is settled by the number of entries before its own (`ledger_of_uses`).
-/
import Repeater.Proofs.Page.Deeds

namespace Repeater

open Dom Hook Scope Stamp Tree

variable {σ : Type}

/-- An addition that has gone through: the tree before it, whether it was a click on the trigger, and
    the elements it has put into the container. -/
structure Entry where
  before : Tree
  clicked : Bool
  items : List NodeId

namespace Page

/-- The elements in the container of a scope. -/
def shown (page : Page σ) (n : Nat) : List NodeId :=
  ((page.scopes[n]?).bind (·.parts)).elim [] fun parts => page.tree.elementChildren parts.container

/-- The counter of a scope. -/
def count? (page : Page σ) (n : Nat) : Option Nat := (page.scopes[n]?).map (·.counter)

end Page

namespace Deed

/-- The entry for a deed in the ledger of a scope. -/
def entry? (page : Page σ) (n : Nat) (deed : Deed) : Option Entry :=
  if deed.number = n ∧ deed.isAddition ∧ deed.succeeds page then
    some ⟨page.tree, deed.isClick,
      ((deed.carryOut page).shown n).filter fun x => ¬ page.tree.Has x⟩
  else none

/-- The item that a deed takes out of the place where it has been. -/
def struck (page : Page σ) (deed : Deed) : List NodeId :=
  deed.deletes?.toList.filter fun item =>
    page.tree.parent? item ≠ none ∧ (deed.carryOut page).tree.parent? item = none

end Deed

namespace Page

/-- The ledger of a scope. -/
def entries (n : Nat) : Page σ → List Deed → List Entry
  | _, [] => []
  | page, deed :: rest => (deed.entry? page n).toList ++ entries n (deed.carryOut page) rest

/-- All items that are taken out. -/
def struck : Page σ → List Deed → List NodeId
  | _, [] => []
  | page, deed :: rest => deed.struck page ++ struck (deed.carryOut page) rest

/-- A scope that has been started, in whose container only it puts anything. -/
structure Alone (page : Page σ) (n : Nat) (parts : Parts) (identifier : String) : Prop where
  resolved : ∃ scope : Scope σ, page.scopes[n]? = some scope ∧
    scope.resolved = .ok (parts, identifier)
  container : ∀ (m : Nat) (scope : Scope σ) (other : Parts), m ≠ n →
    page.scopes[m]? = some scope → scope.parts = some other → other.container ≠ parts.container
  trigger : ∀ (m : Nat) (scope : Scope σ) (other : Parts), page.scopes[m]? = some scope →
    scope.parts = some other → page.tree.parent? other.trigger ≠ some parts.container

variable {start page page₁ page' : Page σ} {n counter : Nat} {parts : Parts} {identifier : String}
  {entries entries' : List Entry} {struck struck' : List NodeId} {scope : Scope σ}
  {desk' : Desk σ}

/-- How a scope gets from one page to another, by its ledger and the items struck out. -/
structure Ledger (start : Page σ) (n : Nat) (parts : Parts) (identifier : String) (counter : Nat)
    (page page' : Page σ) (entries : List Entry) (struck : List NodeId) : Prop where
  steady : Steady start.tree page.tree page'.tree
  counts : page'.count? n = some (counter + entries.length)
  shown : page'.tree.elementChildren parts.container =
    (page.tree.elementChildren parts.container ++ entries.flatMap (·.items)).filter (· ∉ struck)
  has_struck : ∀ x ∈ struck, page'.tree.Has x
  new : ∀ entry ∈ entries, ∀ x ∈ entry.items, ¬ page.tree.Has x ∧ page'.tree.Has x
  filled : ∀ entry ∈ entries, entry.clicked = false → entry.items = []
  copies : ∀ (k : Nat) (entry : Entry), entries[k]? = some entry → entry.clicked = true →
    ∃ g, entry.before.contents? parts.template = some g ∧ List.Forall₂ (fun original copy =>
      StampedCopy entry.before original identifier (counter + k) page'.tree copy)
        (entry.before.elementChildren g) entry.items

namespace Ledger

/-- Where nothing has been added or taken out. -/
theorem of_same (hcounter : page'.count? n = some counter)
    (hsteady : Steady start.tree page.tree page'.tree)
    (hshown : page'.tree.elementChildren parts.container =
      page.tree.elementChildren parts.container) :
    Ledger start n parts identifier counter page page' [] [] := by
  refine ⟨hsteady, hcounter, ?_, by simp, by simp, by simp, by simp⟩
  rw [hshown]
  simp

theorem trans (h : Ledger start n parts identifier counter page page₁ entries struck)
    (h' : Ledger start n parts identifier (counter + entries.length) page₁ page' entries' struck')
    (hstart : start.tree.WellFormed) (hold : Steady start.tree start.tree page.tree) :
    Ledger start n parts identifier counter page page' (entries ++ entries')
      (struck ++ struck') := by
  constructor
  case steady => exact h.steady.trans h'.steady
  case counts => rw [h'.counts, List.length_append, Nat.add_assoc]
  case shown =>
    -- what comes later is new, so it has not been struck out before
    have hlater : (entries'.flatMap (·.items)).filter (· ∉ struck) =
        entries'.flatMap (·.items) := by
      apply List.filter_eq_self.2
      intro x hx
      obtain ⟨entry, hentry, hx⟩ := List.mem_flatMap.1 hx
      rw [decide_eq_true_eq]
      intro hmem
      exact (h'.new entry hentry x hx).1 (h.has_struck x hmem)
    rw [h'.shown, h.shown, List.flatMap_append, ← List.append_assoc, ← hlater, ← List.filter_append,
      List.filter_filter, hlater]
    apply List.filter_congr
    intro x _
    simp [Bool.and_comm]
  case has_struck =>
    intro x hx
    rcases List.mem_append.1 hx with hx | hx
    · exact h'.steady.has (h.has_struck x hx)
    · exact h'.has_struck x hx
  case new =>
    intro entry hentry x hx
    rcases List.mem_append.1 hentry with hentry | hentry
    · obtain ⟨hnew, hhas⟩ := h.new entry hentry x hx
      exact ⟨hnew, h'.steady.has hhas⟩
    · obtain ⟨hnew, hhas⟩ := h'.new entry hentry x hx
      exact ⟨fun hx => hnew (h.steady.has hx), hhas⟩
  case filled =>
    intro entry hentry
    rcases List.mem_append.1 hentry with hentry | hentry
    · exact h.filled entry hentry
    · exact h'.filled entry hentry
  case copies =>
    intro k entry hentry hclicked
    rw [List.getElem?_append] at hentry
    split at hentry
    · -- an earlier item shows what it showed
      obtain ⟨g, hg, hcopies⟩ := h.copies k entry hentry hclicked
      refine ⟨g, hg, ?_⟩
      refine (List.Forall₂.flip ((List.forall₂_and_left _ _).2
        ⟨fun x hx => h.new entry (List.mem_of_getElem? hentry) x hx, hcopies.flip⟩)).imp ?_
      rintro original copy ⟨⟨hnew, hhas⟩, hcopy⟩
      exact StampedCopy.steady hcopy hstart (hold.trans h.steady) h'.steady hhas
        fun hx => hnew (hold.has hx)
    · next hk =>
      obtain ⟨g, hg, hcopies⟩ := h'.copies _ entry hentry hclicked
      have hsum : counter + entries.length + (k - entries.length) = counter + k := by omega
      rw [hsum] at hcopies
      exact ⟨g, hg, hcopies⟩

end Ledger

/-! ## What one deed writes into the ledger -/

section deeds

variable {deed : Deed}

theorem shown_eq (hscope : page.scopes[n]? = some scope) (hparts : scope.parts = some parts) :
    page.shown n = page.tree.elementChildren parts.container := by
  unfold shown
  rw [hscope, Option.bind_some, hparts]
  rfl

theorem Alone.since (halone : start.Alone n parts identifier) (h : start.Since page)
    (hscope : page.scopes[n]? = some scope) : scope.resolved = .ok (parts, identifier) := by
  obtain ⟨scope₀, hscope₀, hresolved⟩ := halone.resolved
  exact (h.resolved hscope₀ hscope).trans hresolved

theorem succeeds_eq (hscope : page.scopes[deed.number]? = some scope)
    {result : Except Error Unit}
    (hrun : exec (deed.flow page.equipment) (page.desk scope) = (result, desk')) :
    deed.succeeds page = result.isOk := by
  unfold Deed.succeeds
  rw [hscope]
  dsimp only
  rw [hrun]

theorem entry?_of_not (h : ¬ (deed.number = n ∧ deed.isAddition ∧ deed.succeeds page)) :
    deed.entry? page n = none := by
  unfold Deed.entry?
  rw [if_neg h]

theorem struck_of_none (h : deed.deletes? = none) : deed.struck page = [] := by
  unfold Deed.struck
  rw [h]
  rfl

/-- What leaves the tree alone takes nothing out. -/
theorem struck_of_same (htree : (deed.carryOut page).tree = page.tree) : deed.struck page = [] := by
  unfold Deed.struck
  rw [htree]
  apply List.filter_eq_nil_iff.2
  intro item _
  simp

theorem count?_carryOut (hscope : page.scopes[deed.number]? = some scope)
    {result : Except Error Unit}
    (hrun : exec (deed.flow page.equipment) (page.desk scope) = (result, desk')) :
    (deed.carryOut page).count? n =
      if n = deed.number then some desk'.scope.counter else page.count? n := by
  obtain ⟨-, -, hscopes⟩ := Deed.carryOut_shows hscope hrun
  unfold count?
  rw [hscopes n]
  split <;> rfl

theorem count?_carryOut_same (hscope : page.scopes[deed.number]? = some scope)
    {result : Except Error Unit}
    (hrun : exec (deed.flow page.equipment) (page.desk scope) = (result, desk'))
    (hsame : desk'.scope.counter = scope.counter) :
    (deed.carryOut page).count? n = page.count? n := by
  rw [count?_carryOut hscope hrun]
  split
  · next hn =>
    unfold count?
    rw [hn, hscope, hsame]
    rfl
  · rfl

/-- The container of the scope was there from the start. -/
theorem Since.has_container (h : start.Since page) (hstart : start.Kept)
    (halone : start.Alone n parts identifier) :
    start.tree.Has parts.container ∧ page.tree.Has parts.container := by
  obtain ⟨scope₀, hscope₀, hresolved⟩ := halone.resolved
  have hhas := ((hstart.settled n scope₀ hscope₀).elements parts (resolved_eq_ok hresolved).1).2.2
  exact ⟨hhas, h.steady.has hhas⟩

variable (h : start.Since page) (hstart : start.Kept) (hcount : page.count? n = some counter)
  (hstill : deed.Still page)
  (hshallow : ∀ item, deed.deletes? = some item → Shallow start.tree page.tree item)
include h hstart hcount hstill hshallow

/-- A deed that adds nothing for the scope and takes nothing out. -/
theorem Since.ledger_of_same (hentry : deed.entry? page n = none) (hstruck : deed.struck page = [])
    (hcount' : (deed.carryOut page).count? n = page.count? n)
    (hsame : (deed.carryOut page).tree.elementChildren parts.container =
      page.tree.elementChildren parts.container) :
    Ledger start n parts identifier counter page (deed.carryOut page) (deed.entry? page n).toList
      (deed.struck page) := by
  rw [hentry, hstruck]
  exact .of_same (hcount'.trans hcount) (h.steady_carryOut hstart hstill hshallow) hsame

/-- A deed for a scope that does not exist. -/
theorem Since.ledger_of_none (hnone : page.scopes[deed.number]? = none) :
    Ledger start n parts identifier counter page (deed.carryOut page) (deed.entry? page n).toList
      (deed.struck page) := by
  obtain ⟨line, hline⟩ := Deed.carryOut_of_none hnone
  apply h.ledger_of_same hstart hcount hstill hshallow
  · apply entry?_of_not
    rintro ⟨-, -, hsucceeds⟩
    unfold Deed.succeeds at hsucceeds
    rw [hnone] at hsucceeds
    cases hsucceeds
  · exact struck_of_same (by rw [hline]; rfl)
  all_goals
    rw [hline]
    rfl

variable (halone : start.Alone n parts identifier) (hscope : page.scopes[deed.number]? = some scope)
  {result : Except Error Unit}
  (hrun : exec (deed.flow page.equipment) (page.desk scope) = (result, desk'))
include halone hscope hrun

/-- A flow that has not counted and has left the containers as they were. -/
theorem Since.ledger_of_quiet (hdeletes : deed.deletes? = none)
    (hnot : ¬ (deed.isAddition = true ∧ result.isOk = true))
    (hcounter : desk'.scope.counter = scope.counter) (hsame : SameItems page.tree desk'.stage.tree) :
    Ledger start n parts identifier counter page (deed.carryOut page) (deed.entry? page n).toList
      (deed.struck page) := by
  obtain ⟨htree, -, -⟩ := Deed.carryOut_shows hscope hrun
  apply h.ledger_of_same hstart hcount hstill hshallow
  · apply entry?_of_not
    rintro ⟨-, haddition, hsucceeds⟩
    rw [succeeds_eq hscope hrun] at hsucceeds
    exact hnot ⟨haddition, hsucceeds⟩
  · exact struck_of_none hdeletes
  · exact count?_carryOut_same hscope hrun hcounter
  · rw [htree]
    exact hsame _ (h.has_container hstart halone).2

omit halone in
/-- An addition for another scope that has gone through. -/
theorem Since.ledger_of_other (hdeletes : deed.deletes? = none) (hother : deed.number ≠ n)
    (hsame : desk'.stage.tree.elementChildren parts.container =
      page.tree.elementChildren parts.container) :
    Ledger start n parts identifier counter page (deed.carryOut page) (deed.entry? page n).toList
      (deed.struck page) := by
  obtain ⟨htree, -, -⟩ := Deed.carryOut_shows hscope hrun
  apply h.ledger_of_same hstart hcount hstill hshallow
  · exact entry?_of_not fun hentry => hother hentry.1
  · exact struck_of_none hdeletes
  · rw [count?_carryOut hscope hrun, if_neg hother.symm]
  · rw [htree]
    exact hsame

/-- An addition for the scope that has gone through, with the elements it has put into the
    container. -/
theorem Since.ledger_of_added (hdeletes : deed.deletes? = none) (hn : deed.number = n)
    (haddition : deed.isAddition = true) (hok : result = .ok ⟨⟩)
    (hcounter : desk'.scope.counter = scope.counter + 1) {items : List NodeId}
    (hitems : desk'.stage.tree.elementChildren parts.container =
      page.tree.elementChildren parts.container ++ items)
    (hnew : ∀ item ∈ items, ¬ page.tree.Has item ∧ desk'.stage.tree.Has item)
    (hfilled : deed.isClick = false → items = [])
    (hcopies : deed.isClick = true → ∃ g, page.tree.contents? parts.template = some g ∧
      List.Forall₂ (fun original copy => StampedCopy page.tree original identifier counter
        desk'.stage.tree copy) (page.tree.elementChildren g) items) :
    Ledger start n parts identifier counter page (deed.carryOut page) (deed.entry? page n).toList
      (deed.struck page) := by
  obtain ⟨htree, -, hscopes⟩ := Deed.carryOut_shows hscope hrun
  have hshifted := h.shifted hstart hstill hshallow hscope hrun
  subst hn
  have hparts : desk'.scope.parts = some parts :=
    hshifted.parts.trans (resolved_eq_ok (halone.since h hscope)).1
  have hscope' : (deed.carryOut page).scopes[deed.number]? = some desk'.scope := by
    rw [hscopes _, if_pos rfl]
  have hentry : deed.entry? page deed.number = some ⟨page.tree, deed.isClick, items⟩ := by
    have hsucceeds : deed.succeeds page = true := by
      rw [succeeds_eq hscope hrun, hok]
      rfl
    have hold : (page.tree.elementChildren parts.container).filter (fun x => ¬ page.tree.Has x) =
        [] := by
      apply List.filter_eq_nil_iff.2
      intro x hx
      simpa using h.kept.wellFormed.has_of_child (List.mem_of_mem_filter hx)
    have hfresh : items.filter (fun x => ¬ page.tree.Has x) = items := by
      apply List.filter_eq_self.2
      intro x hx
      simpa using (hnew x hx).1
    unfold Deed.entry?
    rw [if_pos ⟨rfl, haddition, hsucceeds⟩, shown_eq hscope' hparts, htree, hitems,
      List.filter_append, hold, hfresh, List.nil_append]
  rw [hentry, struck_of_none hdeletes]
  constructor
  case steady => exact h.steady_carryOut hstart hstill hshallow
  case counts =>
    rw [count?_carryOut hscope hrun, if_pos rfl, hcounter]
    unfold count? at hcount
    rw [hscope] at hcount
    cases hcount
    rfl
  case shown =>
    rw [htree, hitems]
    simp
  case has_struck => simp
  case new =>
    rw [htree]
    simpa using hnew
  case filled => simpa using hfilled
  case copies =>
    intro k entry hk hclicked
    cases k with
    | zero =>
      cases hk
      rw [htree]
      exact hcopies hclicked
    | succ k => simp at hk

omit halone in
/-- A deletion takes its item out of where it has been, or changes nothing. -/
theorem Since.ledger_of_delete {item : NodeId} (hdeletes : deed.deletes? = some item)
    (hnot : deed.isAddition = false) (hcounter : desk'.scope.counter = scope.counter)
    (htree' : desk'.stage.tree = page.tree ∨ desk'.stage.tree = page.tree.detachAll [item]) :
    Ledger start n parts identifier counter page (deed.carryOut page) (deed.entry? page n).toList
      (deed.struck page) := by
  obtain ⟨htree, -, -⟩ := Deed.carryOut_shows hscope hrun
  have hentry : deed.entry? page n = none := by
    apply entry?_of_not
    rintro ⟨-, haddition, -⟩
    rw [hnot] at haddition
    cases haddition
  have hgone := detached_detachAll h.kept.wellFormed (deed.struck page)
  have hstruck : desk'.stage.tree = page.tree.detachAll (deed.struck page) := by
    unfold Deed.struck
    rw [hdeletes, htree]
    exact detachAll_taken htree'
  rw [← hstruck] at hgone
  rw [hentry]
  constructor
  case steady => exact h.steady_carryOut hstart hstill hshallow
  case counts =>
    rw [count?_carryOut_same hscope hrun hcounter, hcount]
    rfl
  case shown => rw [htree, hgone.elementChildren, Option.toList_none, List.flatMap_nil,
    List.append_nil]
  case has_struck =>
    intro x hx
    have hitem := List.mem_of_mem_filter hx
    rw [hdeletes, Option.toList_some, List.mem_singleton] at hitem
    subst hitem
    exact (h.steady_carryOut hstart hstill hshallow).has (hshallow x hdeletes).1
  case new => simp
  case filled => simp
  case copies => simp

end deeds

/-- Every deed writes into the ledger of the scope what it has done for it. -/
theorem Since.ledger_of_deed (h : start.Since page) (hstart : start.Kept)
    (halone : start.Alone n parts identifier) (hcount : page.count? n = some counter) (deed : Deed)
    (hstill : deed.Still page)
    (hshallow : ∀ item, deed.deletes? = some item → Shallow start.tree page.tree item) :
    Ledger start n parts identifier counter page (deed.carryOut page) (deed.entry? page n).toList
      (deed.struck page) := by
  rcases hscope : page.scopes[deed.number]? with _ | scope
  · exact h.ledger_of_none hstart hcount hstill hshallow hscope
  have hsettled := h.kept.settled _ scope hscope
  have hwf : (page.desk scope).stage.tree.WellFormed := h.kept.wellFormed
  obtain ⟨hbase, hcontainer⟩ := h.has_container hstart halone
  match deed with
  | .act event (.add m) =>
    obtain ⟨result, desk', hrun, -, hend⟩ := StillHooks.handleAdd start.tree (page.desk scope)
      hsettled.idle hwf (fun other hother => hstill scope other hscope hother)
      (fun other hother => ⟨(h.has_parts hstart hscope hother).2.2,
        (hsettled.elements other hother).2.2⟩) event
    rcases hend with ⟨⟨e, rfl⟩, hcounter, hsame⟩ |
      ⟨hok, hcounter, other, identifier', items, hresolved, hdelivered⟩
    · exact h.ledger_of_quiet hstart hcount hstill hshallow halone hscope hrun rfl
        (fun hboth => Bool.noConfusion hboth.2) hcounter hsame
    by_cases hm : m = n
    · subst hm
      cases (halone.since h hscope).symm.trans hresolved
      have hcounts : scope.counter = counter := by
        unfold count? at hcount
        rw [show page.scopes[m]? = some scope from hscope] at hcount
        exact Option.some.inj hcount
      refine h.ledger_of_added hstart hcount hstill hshallow halone hscope hrun rfl rfl rfl hok
        hcounter hdelivered.container hdelivered.new Bool.noConfusion fun _ => ?_
      rw [← hcounts]
      exact hdelivered.copies
    · obtain ⟨scope₀, hscope₀, -, hparts₀, -⟩ := h.scopes m scope hscope
      have hne : other.container ≠ parts.container :=
        halone.container m scope₀ other hm hscope₀ (hparts₀ ▸ (resolved_eq_ok hresolved).1)
      exact h.ledger_of_other hstart hcount hstill hshallow hscope hrun rfl hm
        (hdelivered.elsewhere _ hcontainer hne.symm)
  | .act event (.delete m item) =>
    obtain ⟨result, desk', hrun⟩ : ∃ result desk', exec (handleDelete page.equipment event item)
      (page.desk scope) = (result, desk') := ⟨_, _, rfl⟩
    obtain ⟨-, hcounter, htree⟩ := StillHooks.handleDelete (page.desk scope) hsettled.idle hwf
      (hstill scope hscope) (hshallow item rfl) hrun
    exact h.ledger_of_delete hstart hcount hstill hshallow hscope hrun rfl rfl hcounter htree
  | .fill m data =>
    obtain ⟨result, desk', hrun, -, hend⟩ := handleData_ends start.tree (page.desk scope)
      hsettled.idle hwf
      (fun other p hother hp => (h.parent_trigger hstart hscope hother hp).2) page.equipment data
    rcases hend with ⟨⟨e, rfl⟩, hcounter, hsame⟩ | ⟨hok, hcounter, other, hother, hsame⟩
    · exact h.ledger_of_quiet hstart hcount hstill hshallow halone hscope hrun rfl
        (fun hboth => Bool.noConfusion hboth.2) hcounter hsame
    have hcontainer' : desk'.stage.tree.elementChildren parts.container =
        page.tree.elementChildren parts.container := by
      refine hsame _ hcontainer fun hparent => ?_
      obtain ⟨scope₀, hscope₀, -, hparts₀, -⟩ := h.scopes m scope hscope
      exact halone.trigger m scope₀ other hscope₀ (hparts₀ ▸ hother)
        (h.parent_trigger hstart hscope hother hparent).1
    by_cases hm : m = n
    · exact h.ledger_of_added hstart hcount hstill hshallow halone hscope hrun rfl hm rfl hok
        hcounter (hcontainer'.trans (List.append_nil _).symm) (by simp) (fun _ => rfl)
        fun hclick => Bool.noConfusion hclick
    · exact h.ledger_of_other hstart hcount hstill hshallow hscope hrun rfl hm hcontainer'
  | .restart m =>
    obtain ⟨result, desk', hrun⟩ : ∃ result desk', exec (Scope.start page.equipment)
      (page.desk scope) = (result, desk') := ⟨_, _, rfl⟩
    obtain ⟨⟨other, identifier', hresolved, hfound⟩, hafter⟩ := hstill scope hscope
    have hother := (resolved_eq_ok hresolved).1
    have hstarted : scope.started = true := by
      rw [← hsettled.parts, hother]
      rfl
    obtain ⟨-, hcounter, hsame⟩ := restart_ends (page.desk scope) hwf hresolved hstarted hfound
      hafter (h.has_root hstart hscope hother) (h.has_parts hstart hscope hother).2.2 hrun
    exact h.ledger_of_quiet hstart hcount hstill hshallow halone hscope hrun rfl
      (fun hboth => Bool.noConfusion hboth.1) hcounter hsame

/-! ## What a run writes into the ledger -/

theorem entries_append (n : Nat) (page : Page σ) (deeds rest : List Deed) :
    page.entries n (deeds ++ rest) =
      page.entries n deeds ++ (deeds.foldl Deed.carryOut page).entries n rest := by
  induction deeds generalizing page with
  | nil => rfl
  | cons deed deeds ih => simp only [List.cons_append, Page.entries, ih, List.foldl_cons,
      List.append_assoc]

theorem struck_append (page : Page σ) (deeds rest : List Deed) :
    page.struck (deeds ++ rest) =
      page.struck deeds ++ (deeds.foldl Deed.carryOut page).struck rest := by
  induction deeds generalizing page with
  | nil => rfl
  | cons deed deeds ih => simp only [List.cons_append, Page.struck, ih, List.foldl_cons,
      List.append_assoc]

/-- What holds after some deeds: the invariant, and the ledger of what they have done. -/
structure Booked (start : Page σ) (n : Nat) (parts : Parts) (identifier : String) (counter : Nat)
    (page : Page σ) (deeds : List Deed) : Prop where
  since : start.Since (deeds.foldl Deed.carryOut page)
  ledger : Ledger start n parts identifier counter page (deeds.foldl Deed.carryOut page)
    (page.entries n deeds) (page.struck deeds)

namespace Booked

variable {deeds rest : List Deed}

theorem nil (h : start.Since page) (hcount : page.count? n = some counter) :
    Booked start n parts identifier counter page [] :=
  ⟨h, .of_same hcount (.refl h.kept.wellFormed _) rfl⟩

theorem append (hfirst : Booked start n parts identifier counter page deeds)
    (hrest : Booked start n parts identifier (counter + (page.entries n deeds).length)
      (deeds.foldl Deed.carryOut page) rest) (h : start.Since page) (hstart : start.Kept) :
    Booked start n parts identifier counter page (deeds ++ rest) := by
  refine ⟨?_, ?_⟩
  · rw [List.foldl_append]
    exact hrest.since
  · rw [List.foldl_append, entries_append, struck_append]
    exact hfirst.ledger.trans hrest.ledger hstart.wellFormed h.steady

end Booked

/-- Only clicks put anything into the container. -/
theorem flatMap_clicked (h : ∀ entry ∈ entries, entry.clicked = false → entry.items = []) :
    entries.flatMap (·.items) = (entries.filter (·.clicked)).flatMap (·.items) := by
  induction entries with
  | nil => rfl
  | cons entry rest ih =>
    have hrest := ih fun other hother => h other (List.mem_cons_of_mem _ hother)
    cases hclicked : entry.clicked with
    | true => simp [hclicked, hrest]
    | false => simp [hclicked, hrest, h entry (by simp) hclicked]

section runs

variable (hstart : start.Kept) (halone : start.Alone n parts identifier)
include hstart halone

theorem Since.booked_deed (h : start.Since page) (hcount : page.count? n = some counter)
    {deed : Deed} (hstill : deed.Still page)
    (hshallow : ∀ item, deed.deletes? = some item → Shallow start.tree page.tree item) :
    Booked start n parts identifier counter page [deed] := by
  refine ⟨h.carryOut hstart hstill hshallow, ?_⟩
  simp only [Page.entries, Page.struck, List.append_nil, List.foldl_cons, List.foldl_nil]
  exact h.ledger_of_deed hstart halone hcount deed hstill hshallow

/-- Deeds that delete shallow nodes only: as the tree changes steadily, these stay shallow until
    their deed is carried out. -/
theorem Since.booked_deeds (h : start.Since page) (hcount : page.count? n = some counter)
    {deeds : List Deed} (hstill : Deed.AllStill page deeds)
    (hshallow : ∀ deed ∈ deeds, ∀ item, deed.deletes? = some item →
      Shallow start.tree page.tree item) :
    Booked start n parts identifier counter page deeds := by
  induction deeds generalizing page counter with
  | nil => exact .nil h hcount
  | cons deed rest ih =>
    have hone := h.booked_deed hstart halone hcount hstill.1 (hshallow deed (by simp))
    have hrest : Booked start n parts identifier (counter + (page.entries n [deed]).length)
        (deed.carryOut page) rest := by
      apply ih hone.since hone.ledger.counts hstill.2
      intro other hother item hitem
      exact hone.ledger.steady.shallow (hshallow other (by simp [hother]) item hitem)
    exact hone.append hrest h hstart

theorem Since.booked_passages (h : start.Since page) (hcount : page.count? n = some counter)
    {event : Event} {path : List NodeId} (hstill : Deed.AllStill page (page.passages event path)) :
    Booked start n parts identifier counter page (page.passages event path) := by
  induction path generalizing page counter with
  | nil => exact .nil h hcount
  | cons node path ih =>
    rw [passages, Deed.allStill_append, foldl_arrivals] at hstill
    have hone : Booked start n parts identifier counter page (page.arrivals event node) := by
      refine h.booked_deeds hstart halone hcount hstill.1 fun deed hdeed item hitem => ?_
      obtain ⟨l, hl, rfl⟩ := List.mem_map.1 hdeed
      exact h.shallow l (List.mem_of_mem_filter hl) item hitem
    refine hone.append ?_ h hstart
    obtain ⟨hsince, hledger⟩ := hone
    rw [foldl_arrivals] at hsince hledger ⊢
    exact ih hsince hledger.counts hstill.2

theorem Since.booked_use (h : start.Since page) (hcount : page.count? n = some counter) {use : Use}
    (hstill : Deed.AllStill page (use.deeds page)) :
    Booked start n parts identifier counter page (use.deeds page) := by
  cases use with
  | click target => exact h.booked_passages hstart halone hcount hstill
  | addFromData m data =>
    exact h.booked_deed hstart halone hcount hstill.1 fun item hitem => by cases hitem
  | start m =>
    exact h.booked_deed hstart halone hcount hstill.1 fun item hitem => by cases hitem

theorem Since.booked_uses (h : start.Since page) (hcount : page.count? n = some counter)
    {uses : List Use} (hstill : Deed.AllStill page (page.deeds uses)) :
    Booked start n parts identifier counter page (page.deeds uses) := by
  induction uses generalizing page counter with
  | nil => exact .nil h hcount
  | cons use uses ih =>
    rw [deeds, Deed.allStill_append, foldl_use] at hstill
    have hone := h.booked_use hstart halone hcount hstill.1
    refine hone.append ?_ h hstart
    obtain ⟨hsince, hledger⟩ := hone
    rw [foldl_use] at hsince hledger ⊢
    exact ih hsince hledger.counts hstill.2

end runs

/-- However a page is used, a scope that is alone in its container is a list and a counter. The
    counter grows by one with each addition that goes through. In the container the items of clicks
    follow what has been there, in the order of the clicks, less what deletions have taken out. What
    a click has added shows the number of its entry among all additions, clicks or not. -/
theorem ledger_of_uses (hnew : start.New) (hreaches : start.Reaches page)
    (halone : page.Alone n parts identifier) (hcount : page.count? n = some counter)
    {uses : List Use} (hstill : Deed.AllStill page (page.deeds uses)) :
    let entries := page.entries n (page.deeds uses)
    let page' := uses.foldl Use.apply page
    page'.count? n = some (counter + entries.length) ∧
      page'.tree.elementChildren parts.container =
        (page.tree.elementChildren parts.container ++
          (entries.filter (·.clicked)).flatMap (·.items)).filter
            (· ∉ page.struck (page.deeds uses)) ∧
      ∀ (k : Nat) (entry : Entry), entries[k]? = some entry → entry.clicked = true →
        ∃ g, entry.before.contents? parts.template = some g ∧ List.Forall₂ (fun original copy =>
          Displays entry.before original identifier (counter + k) page'.tree copy)
            (entry.before.elementChildren g) entry.items := by
  intro entries page'
  have hkept := hreaches.kept hnew.kept
  obtain ⟨-, hledger⟩ := (Since.refl hkept).booked_uses hkept halone hcount hstill
  rw [foldl_deeds] at hledger
  refine ⟨hledger.counts, ?_, ?_⟩
  · rw [hledger.shown, flatMap_clicked hledger.filled]
  · intro k entry hentry hclicked
    obtain ⟨g, hg, hcopies⟩ := hledger.copies k entry hentry hclicked
    exact ⟨g, hg, hcopies.imp fun _ _ => StampedCopy.displays⟩

theorem alone_of_one (hone : page.scopes.size = 1)
    (hresolved : (page.scopes[0]?).any
      fun scope => decide (scope.resolved = .ok (parts, identifier)))
    (htrigger : page.tree.parent? parts.trigger ≠ some parts.container) :
    page.Alone 0 parts identifier := by
  rw [Option.any_eq_true] at hresolved
  obtain ⟨scope, hscope, hresolved⟩ := hresolved
  rw [decide_eq_true_eq] at hresolved
  have honly : ∀ (m : Nat) (other : Scope σ), page.scopes[m]? = some other →
      m = 0 ∧ other = scope := by
    intro m other hother
    obtain ⟨hlt, -⟩ := Array.getElem?_eq_some_iff.1 hother
    obtain rfl : m = 0 := by omega
    exact ⟨rfl, Option.some.inj (hother.symm.trans hscope)⟩
  refine ⟨⟨scope, hscope, hresolved⟩, ?_, ?_⟩
  · intro m other _ hm hother
    exact absurd (honly m other hother).1 hm
  · intro m other others hother hparts
    obtain ⟨-, rfl⟩ := honly m other hother
    cases (resolved_eq_ok hresolved).1.symm.trans hparts
    exact htrigger

/-- An item that shows its number and can be deleted. -/
def deletableItem : Markup.ParseNode :=
  .element "li" [⟨"s-index", "id"⟩, ⟨"id", "item{{index}}"⟩] [] [
    .element "b" [⟨"s-sequence", "00"⟩] [] [], .element "button" [⟨"s-delete", "list"⟩] [] []]

/-- A run of all kinds of uses; the first item clicked for is deleted, and its number, 2, is not
    given again. -/
theorem ledger_of_uses_list :
    let page := (ofMarkup (listMarkup [deletableItem] [])).startAll
    let uses := [.addFromData 0 [], .click (.slot 8), .click (.slot 17), .click (.slot 8), .start 0]
    let page' := uses.foldl Use.apply page
    page'.count? 0 = some 3 ∧ page'.tree.elementChildren (.slot 7) = [.slot 20] ∧
      page.struck (page.deeds uses) = [.slot 15] ∧
      ∃ before : Tree, before.elementChildren (.slot 3) = [.slot 4] ∧
        Displays before (.slot 4) "list" 2 page'.tree (.slot 20) := by
  intro page uses page'
  have hreaches : (ofMarkup (listMarkup [deletableItem] [])).Reaches page :=
    Reaches.step Relation.ReflTransGen.refl .startAll trivial
  have halone : page.Alone 0 ⟨.slot 2, .slot 8, .slot 7⟩ "list" :=
    alone_of_one (by decide +kernel) (by decide +kernel) (by decide +kernel)
  have hstill : Deed.AllStill page (page.deeds uses) :=
    Deed.allStill_of_allUnhooked (by decide +kernel)
  have hzero : page.count? 0 = some 0 := by decide +kernel
  obtain ⟨hcount, hshown, hdisplays⟩ :=
    ledger_of_uses (new_ofMarkup _) hreaches halone hzero hstill
  have hentry : ((page.entries 0 (page.deeds uses))[2]?).map (fun entry =>
      (entry.clicked, entry.items, entry.before.contents? (.slot 2),
        entry.before.elementChildren (.slot 3))) =
      some (true, [.slot 20], some (.slot 3), [.slot 4]) := by decide +kernel
  obtain ⟨entry, hentry, hfacts⟩ := Option.map_eq_some_iff.1 hentry
  simp only [Prod.mk.injEq] at hfacts
  obtain ⟨hclicked, hitems, hcontents, horiginals⟩ := hfacts
  obtain ⟨g, hg, hcopies⟩ := hdisplays 2 entry hentry hclicked
  cases hcontents.symm.trans hg
  rw [horiginals, hitems, List.forall₂_cons] at hcopies
  refine ⟨hcount.trans ?_, hshown.trans ?_, ?_, entry.before, horiginals, hcopies.1⟩
  all_goals decide +kernel

/-- The clicks alone do not say what number is shown: after an addition from data, the item of the
    first click shows 2. -/
theorem not_displays_clicks :
    let page := (ofMarkup (listMarkup [numberedItem] [])).startAll
    let uses := [.addFromData 0 [], .click (.slot 7)]
    page.Alone 0 ⟨.slot 2, .slot 7, .slot 6⟩ "list" ∧ page.count? 0 = some 0 ∧
      Deed.AllStill page (page.deeds uses) ∧
      ¬ ∀ (k : Nat) (entry : Entry),
        ((page.entries 0 (page.deeds uses)).filter (·.clicked))[k]? = some entry →
        ∃ g, entry.before.contents? (.slot 2) = some g ∧ List.Forall₂ (fun original copy =>
          Displays entry.before original "list" (0 + k) (uses.foldl Use.apply page).tree copy)
            (entry.before.elementChildren g) entry.items := by
  intro page uses
  refine ⟨alone_of_one (by decide +kernel) (by decide +kernel) (by decide +kernel),
    by decide +kernel, Deed.allStill_of_allUnhooked (by decide +kernel), ?_⟩
  intro hall
  have hentry : (((page.entries 0 (page.deeds uses)).filter (·.clicked))[0]?).map (fun entry =>
      (entry.items, entry.before.contents? (.slot 2), entry.before.elementChildren (.slot 3),
        ((entry.before.follow? (.slot 4) [.child 0]).bind entry.before.element?).bind
          (·.get? Directive.sequence.name))) =
      some ([.slot 13], some (.slot 3), [.slot 4], some "00") := by decide +kernel
  obtain ⟨entry, hentry, hfacts⟩ := Option.map_eq_some_iff.1 hentry
  simp only [Prod.mk.injEq] at hfacts
  obtain ⟨hitems, hcontents, horiginals, hzeros⟩ := hfacts
  obtain ⟨g, hg, hcopies⟩ := hall 0 entry hentry
  cases hcontents.symm.trans hg
  rw [horiginals, hitems, List.forall₂_cons] at hcopies
  -- the mark is the first child of the item
  have hmarked : (((uses.foldl Use.apply page).tree.element? (.slot 14)).any
      fun e' => (e'.get? Directive.sequence.name).isSome) = true := by decide +kernel
  obtain ⟨e', he', hmarked⟩ := Option.any_eq_true _ _ |>.1 hmarked
  obtain ⟨y, e, hy, he, -, hsequence, -⟩ :=
    hcopies.1 [.child 0] (.slot 14) e' (by decide +kernel) he'
  obtain ⟨pattern, text, hpattern, htext, hnumber⟩ := hsequence hmarked (by decide)
  have hkids : (uses.foldl Use.apply page).tree.children (.slot 14) = [.slot 15] := by
    decide +kernel
  have hshown : (uses.foldl Use.apply page).tree.content? (.slot 15) = some (.text "02") := by
    decide +kernel
  cases hkids.symm.trans htext
  rw [hy, Option.bind_some, he, Option.bind_some, hpattern, Option.some.injEq] at hzeros
  rw [hshown, hzeros] at hnumber
  exact absurd hnumber (by decide +kernel)

end Page

end Repeater
