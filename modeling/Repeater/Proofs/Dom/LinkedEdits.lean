/-
  Repeater/Proofs/Dom/LinkedEdits.lean
  ====================================
  **The edits do on links what they do on trees.**

  `Mirrors` relates an edit of a tree to an edit of links: started on the links that a tree shows,
  the second gives the result of the first and leaves the links of the tree that the first leaves.
  Programs that are put together from mirrored parts are mirrored, so every edit is, copies of any
  depth included (`Operation.mirrors_run`), and with it every run of edits (`links_after`).
-/
import Repeater.Proofs.Dom.Links

namespace Repeater.Dom

open Tree

variable {α β : Type} {t : Tree}

/-- The second program does on the links of the tree what the first does on the tree. -/
def MirrorsAt (t : Tree) (program : Edit α) (linked : LinkEdit α) : Prop :=
  (exec program t).2.Tidy ∧
    exec linked t.links = ((exec program t).1, (exec program t).2.links)

/-- The second program does on links what the first does on trees. -/
def Mirrors (program : Edit α) (linked : LinkEdit α) : Prop :=
  ∀ t : Tree, t.Tidy → MirrorsAt t program linked

/-! ## Programs of mirrored parts -/

namespace Mirrors

theorem pure (a : α) : Mirrors (pure a) (pure a) := fun _ h => ⟨h, rfl⟩

theorem throw (e : DomError) : Mirrors (throw e : Edit α) (throw e) := fun _ h => ⟨h, rfl⟩

theorem bindAt {program : Edit α} {linked : LinkEdit α} {next : α → Edit β}
    {linkedNext : α → LinkEdit β} (h : MirrorsAt t program linked)
    (hnext : ∀ a, Mirrors (next a) (linkedNext a)) :
    MirrorsAt t (program >>= next) (linked >>= linkedNext) := by
  obtain ⟨htidy, hrun⟩ := h
  unfold MirrorsAt
  rw [exec_bind, exec_bind, hrun]
  rcases hresult : exec program t with ⟨_ | a, after⟩
  · rw [hresult] at htidy
    exact ⟨htidy, rfl⟩
  · rw [hresult] at htidy
    exact hnext a after htidy

theorem bind {program : Edit α} {linked : LinkEdit α} {next : α → Edit β}
    {linkedNext : α → LinkEdit β} (h : Mirrors program linked)
    (hnext : ∀ a, Mirrors (next a) (linkedNext a)) :
    Mirrors (program >>= next) (linked >>= linkedNext) := fun t ht => bindAt (h t ht) hnext

theorem discard {program : Edit α} {linked : LinkEdit α} (h : Mirrors program linked) :
    Mirrors (discard program) (discard linked) := bind h fun _ => pure _

theorem forM {items : List α} {body : α → Edit PUnit} {linkedBody : α → LinkEdit PUnit}
    (h : ∀ a ∈ items, Mirrors (body a) (linkedBody a)) :
    Mirrors (items.forM body) (items.forM linkedBody) := by
  induction items with
  | nil => exact pure _
  | cons a rest ih =>
    exact bind (h a (by simp)) fun _ => ih fun b hb => h b (by simp [hb])

theorem ite {c : Prop} [Decidable c] {program other : Edit α} {linked linkedOther : LinkEdit α}
    (h : Mirrors program linked) (hother : Mirrors other linkedOther) :
    Mirrors (if c then program else other) (if c then linked else linkedOther) := by
  split
  · exact h
  · exact hother

/-- A program that first looks at the tree is judged tree by tree. -/
theorem get_bind {next : Tree → Edit β} {linkedNext : Links → LinkEdit β}
    (h : ∀ t, t.Tidy → MirrorsAt t (next t) (linkedNext t.links)) :
    Mirrors (get >>= next) (get >>= linkedNext) := by
  intro t ht
  unfold MirrorsAt
  rw [exec_get_bind, exec_get_bind]
  exact h t ht

theorem change {f : Tree → Tree} {g : Links → Links}
    (h : ∀ t, t.Tidy → (f t).Tidy ∧ g t.links = (f t).links) :
    Mirrors (modify f) (modify g) := by
  intro t ht
  obtain ⟨htidy, hlinks⟩ := h t ht
  exact ⟨htidy, by rw [exec_modify, exec_modify, hlinks]⟩

theorem setAt {t' : Tree} {a : Links} (htidy : t'.Tidy) (hlinks : a = t'.links) :
    MirrorsAt t (set t') (set a) := ⟨htidy, by rw [exec_set, exec_set, hlinks]⟩

end Mirrors

/-! ## What links show of a tree -/

namespace Tree

variable {p c x : NodeId}

theorem links_push (t : Tree) (content : Content) :
    (t.links.push content).2 = (t.push content).2.links := by
  refine Links.ext_get? fun y => ?_
  have hsame : (t.push content).2.linkedNode y = t.linkedNode y := by
    funext n
    simp [linkedNode, previousSibling?, nextSibling?]
  rw [Links.get?_push, get?_links, get?_links, get?_push, size_links, hsame]
  split
  · next hy =>
    have hparent : t.parent? y = none := parent?_of_not_has (hy ▸ not_has_new t)
    simp [linkedNode, previousSibling?, nextSibling?, hparent]
  · rfl

theorem links_setContent (t : Tree) (x : NodeId) (content : Content) :
    t.links.setContent x content = (t.setContent x content).links := by
  refine Links.ext_get? fun y => ?_
  have hsame : (t.setContent x content).linkedNode y = t.linkedNode y := by
    funext n
    simp [linkedNode, previousSibling?, nextSibling?]
  rw [get?_links, hsame]
  unfold Links.setContent setContent
  rw [Links.get?_modify, get?_links, get?_modify]
  split
  · cases t.get? y <;> rfl
  · rfl

theorem follow_parent? (steps : Nat) (start : Option NodeId) :
    Links.follow t.links.parent? steps start = t.climb steps start := by
  induction steps generalizing start with
  | zero => rfl
  | succ steps ih =>
    cases start with
    | none => rfl
    | some x => rw [Links.follow, climb, ih, parent?_links]

@[simp] theorem isInclusiveAncestor_links (t : Tree) (a b : NodeId) :
    t.links.isInclusiveAncestor a b = t.isInclusiveAncestor a b := by
  unfold Links.isInclusiveAncestor isInclusiveAncestor Links.ancestors ancestors
  rw [follow_parent?, parent?_links, size_links]

@[simp] theorem checkPlace_links (t : Tree) (p c : NodeId) (reference : Option NodeId) :
    LinkEdit.checkPlace t.links p c reference = t.checkPlace p c reference := by
  unfold LinkEdit.checkPlace checkPlace
  simp only [content?_links, parent?_links] <;> rfl

/-! ## Reading the children off the links -/

theorem follow_of_reads {step : NodeId → Option NodeId} {start : Option NodeId}
    {ids : List NodeId} (h : Links.Reads step start ids) {steps : Nat}
    (hlength : ids.length ≤ steps) : Links.follow step steps start = ids := by
  induction h generalizing steps with
  | stop => cases steps <;> rfl
  | step _ ih =>
    cases steps with
    | zero => simp at hlength
    | succ steps => rw [Links.follow, ih (by simpa using hlength)]

/-- Going from each entry of a list to the one after it reads the list. -/
theorem reads_entries {step : NodeId → Option NodeId} {ids : List NodeId} (hnodup : ids.Nodup)
    (hstep : ∀ x ∈ ids, step x = entryAfter? x ids) : Links.Reads step ids.head? ids := by
  -- the entries already read are `front`
  suffices h : ∀ front back, ids = front ++ back → Links.Reads step back.head? back from h [] ids rfl
  intro front back
  induction back generalizing front with
  | nil => exact fun _ => .stop
  | cons x rest ih =>
    intro hids
    have hx : step x = rest.head? := by
      rw [hstep x (by simp [hids]), hids, entryAfter?_insert (hids ▸ hnodup), if_pos rfl]
    refine .step ?_
    rw [hx]
    exact ih (front ++ [x]) (by simp [hids])

/-- The siblings of the children of a node read its list of children. -/
theorem reads_siblings (h : t.Tidy) (arrange : List NodeId → List NodeId)
    (harrange : (arrange (t.children p)).Perm (t.children p)) :
    Links.Reads (t.siblingIn? arrange) (arrange (t.children p)).head?
      (arrange (t.children p)) := by
  refine reads_entries (harrange.nodup_iff.2 (h.nodup_children p)) fun x hx => ?_
  unfold siblingIn?
  rw [h.parent_of_child (harrange.mem_iff.1 hx), Option.bind_some]

theorem reads_children (h : t.Tidy) (p : NodeId) :
    Links.Reads t.links.next? (t.links.first? p) (t.children p) := by
  have hnext : t.links.next? = t.nextSibling? := funext (next?_links t)
  rw [hnext, first?_links]
  exact reads_siblings h id (.refl _)

theorem reads_children_reverse (h : t.Tidy) (p : NodeId) :
    Links.Reads t.links.previous? (t.links.last? p) (t.children p).reverse := by
  have hprevious : t.links.previous? = t.previousSibling? := funext (previous?_links t)
  have hlast : t.links.last? p = (t.children p).reverse.head? := by
    rw [last?_links, List.head?_reverse]
    rfl
  rw [hprevious, hlast]
  exact reads_siblings h List.reverse (List.reverse_perm _)

theorem children_links (h : t.Tidy) (p : NodeId) : t.links.children p = t.children p := by
  refine follow_of_reads (reads_children h p) ?_
  rw [size_links]
  exact length_le_size (h.nodup_children p) fun x hx => has_of_parent (h.parent_of_child hx)

/-- Climbing from parent to parent ends. -/
theorem reads_ancestors (h : t.WellFormed) (x : NodeId) :
    Links.Reads t.links.parent? (t.links.parent? x) (t.ancestors x) := by
  have hclimb : ∀ steps start, (t.climb steps start).length < steps →
      Links.Reads t.links.parent? start (t.climb steps start) := by
    intro steps
    induction steps with
    | zero => exact fun _ hlength => absurd hlength (Nat.not_lt_zero _)
    | succ steps ih =>
      intro start hlength
      cases start with
      | none => exact .stop
      | some y =>
        rw [climb] at hlength ⊢
        refine .step ?_
        rw [parent?_links]
        exact ih _ (by simpa using hlength)
  rw [parent?_links]
  by_cases hx : t.Has x
  · exact hclimb _ _ (length_ancestors_lt h hx)
  · have hnone := parent?_of_not_has hx
    unfold ancestors
    rw [hnone]
    cases t.size <;> exact .stop

/-! ## Moving a node -/

/-- The place a node is moved to is before another child of the parent. -/
theorem parent_of_movedReference (h : t.Tidy) {p c r : NodeId} {reference : Option NodeId}
    (hreference : ∀ r, reference = some r → t.parent? r = some p)
    (hr : t.movedReference c reference = some r) : (t.detach c).parent? r = some p := by
  unfold movedReference at hr
  split at hr
  · next hself =>
    have hc := hreference c hself
    obtain ⟨front, back, hlist⟩ := List.append_of_mem (h.child_of_parent hc)
    have hnext : t.nextSibling? c = back.head? := siblingIn?_self h hlist (arranges_id front c back)
    have hback : r ∈ back := List.mem_of_head? (hnext ▸ hr)
    have hne : r ≠ c := by
      rintro rfl
      exact (List.nodup_cons.1 (List.nodup_middle.1 (hlist ▸ h.nodup_children p))).1
        (List.mem_append_right _ hback)
    rw [parent?_detach, if_neg hne]
    exact h.parent_of_child (by simp [hlist, hback])
  · next hother =>
    have hne : r ≠ c := by
      rintro rfl
      exact hother hr
    rw [parent?_detach, if_neg hne]
    exact hreference r hr

/-- One node moves on links as it moves on the tree. -/
theorem links_relocate (h : t.Tidy) {p c : NodeId} {reference : Option NodeId} (hp : t.Has p)
    (hc : t.Has c) (hreference : ∀ r, reference = some r → t.parent? r = some p) :
    (t.relocate p c reference).links =
      (t.links.unlink c).link p c (t.movedReference c reference) := by
  rw [relocate_eq, ← links_detach h]
  exact links_place (h.detach c) (by simpa using hp) (by simpa using hc) (by simp)
    fun r hr => parent_of_movedReference h hreference hr

end Tree

/-! ## The edits -/

theorem LinkEdit.exec_create (content : Content) (a : Links) :
    exec (LinkEdit.create content) a = (.ok (.slot a.size), (a.push content).2) := rfl

namespace Mirrors

theorem create (content : Content) : Mirrors (Edit.create content) (LinkEdit.create content) := by
  intro t ht
  refine ⟨ht.push content, ?_⟩
  rw [Edit.exec_create, LinkEdit.exec_create, links_push, size_links]

theorem setContent (id : NodeId) (content : Content) :
    Mirrors (modify fun t => t.setContent id content) (modify fun a => a.setContent id content) :=
  change fun t ht => ⟨ht.setContent id content, links_setContent t id content⟩

theorem createElement (tag : String) :
    Mirrors (Edit.createElement tag) (LinkEdit.createElement tag) := by
  refine bind (create _) fun id => ?_
  dsimp only
  split
  · refine bind (create _) fun contents => ?_
    exact bind (setContent _ _) fun _ => pure _
  · exact pure _

theorem insertNode (p c : NodeId) (reference : Option NodeId) :
    Mirrors (Edit.insertNode p c reference) (LinkEdit.insertNode p c reference) := by
  refine get_bind fun t ht => ?_
  rw [checkPlace_links, isInclusiveAncestor_links, next?_links]
  rcases hplace : t.checkPlace p c reference with e | content
  · exact throw e t ht
  · have hallows := checkPlace_eq_ok.1 hplace
    refine bindAt (pure content t ht) fun _ => ?_
    split
    · exact throw _
    · exact fun _ _ => setAt (ht.relocate hallows.has_parent hallows.has_child reference)
        (links_relocate ht hallows.has_parent hallows.has_child hallows.reference).symm

theorem insertBefore (p c : NodeId) (reference : Option NodeId) :
    Mirrors (Edit.insertBefore p c reference) (LinkEdit.insertBefore p c reference) := by
  refine get_bind fun t ht => ?_
  rw [checkPlace_links, children_links ht]
  rcases hplace : t.checkPlace p c reference with e | content
  · exact throw e t ht
  · refine bindAt (pure content t ht) fun content => ?_
    split
    · exact bind (forM fun kid _ => insertNode p kid reference) fun _ => pure c
    · exact bind (insertNode p c reference) fun _ => pure c

theorem removeChild (p c : NodeId) :
    Mirrors (Edit.removeChild p c) (LinkEdit.removeChild p c) := by
  refine get_bind fun t ht => ?_
  rw [parent?_links, ← links_detach ht]
  split
  · exact bindAt (setAt (ht.detach c) rfl) fun _ => pure c
  · exact throw _ t ht

theorem remove (x : NodeId) : Mirrors (Edit.remove x) (LinkEdit.remove x) := by
  refine get_bind fun t ht => ?_
  rw [isNone_get?_links, ← links_detach ht]
  split
  · exact throw _ t ht
  · exact bindAt (setAt (ht.detach x) rfl) fun _ => pure x

theorem theElement (x : NodeId) : Mirrors (Edit.theElement x) (LinkEdit.theElement x) := by
  refine get_bind fun t ht => ?_
  rw [content?_links]
  rcases t.content? x with _ | content
  · exact throw _ t ht
  · dsimp only
    rcases content.element? with _ | e
    · exact throw _ t ht
    · exact pure e t ht

theorem setAttribute (x : NodeId) (name value : String) :
    Mirrors (Edit.setAttribute x name value) (LinkEdit.setAttribute x name value) :=
  bind (theElement x) fun _ => setContent x _

theorem removeAttribute (x : NodeId) (name : String) :
    Mirrors (Edit.removeAttribute x name) (LinkEdit.removeAttribute x name) :=
  bind (theElement x) fun _ => bind (setContent x _) fun _ => pure _

theorem unlink (x : NodeId) :
    Mirrors (modify fun t => t.detach x) (modify fun a => a.unlink x) :=
  change fun _ ht => ⟨ht.detach x, (links_detach ht x).symm⟩

theorem setText (x : NodeId) (text : String) :
    Mirrors (Edit.setText x text) (LinkEdit.setText x text) := by
  refine get_bind fun t ht => ?_
  rw [content?_links, children_links ht]
  rcases hx : t.get? x with _ | node
  · have hnone : t.content? x = none := by simp [content?, hx]
    rw [hnone]
    exact throw _ t ht
  have hsome : t.content? x = some node.content := by simp [content?, hx]
  have hkids : t.children x = node.children := by simp [children, hx]
  -- what is done with any node but a text
  have hemptied : Mirrors
      (do
        node.children.forM fun kid => modify fun t => t.detach kid
        unless text.isEmpty do
          let child ← Edit.create (.text text)
          let _ ← Edit.append x child)
      (do
        node.children.forM fun kid => modify fun a => a.unlink kid
        unless text.isEmpty do
          let child ← LinkEdit.create (.text text)
          let _ ← LinkEdit.append x child) := by
    refine bind (forM fun kid _ => unlink kid) fun _ => ?_
    split
    · exact pure _
    · exact bind (create _) fun child => bind (insertBefore x child none) fun _ => pure _
  rw [hsome, hkids]
  dsimp only
  rcases node.content with _ | _ | _ | _ | s | _
  case text => exact setContent x (.text text) t ht
  all_goals exact hemptied t ht

theorem copyWithin (depth : Nat) (x : NodeId) (deep : Bool) :
    Mirrors (Edit.copyWithin depth x deep) (LinkEdit.copyWithin depth x deep) := by
  induction depth generalizing x deep with
  | zero => exact throw _
  | succ depth ih =>
    refine get_bind fun t ht => ?_
    rw [content?_links, children_links ht]
    rcases hx : t.get? x with _ | node
    · have hnone : t.content? x = none := by simp [content?, hx]
      rw [hnone]
      exact throw _ t ht
    have hsome : t.content? x = some node.content := by simp [content?, hx]
    have hkids : t.children x = node.children := by simp [children, hx]
    -- the loop over the children is the same whatever kind of node has been copied
    have hrest : ∀ copy, Mirrors
        (do
          if deep then
            node.children.forM fun kid => do
              let child ← Edit.copyWithin depth kid true
              let _ ← Edit.append copy child
          return copy)
        (do
          if deep then
            node.children.forM fun kid => do
              let child ← LinkEdit.copyWithin depth kid true
              let _ ← LinkEdit.append copy child
          return copy) := by
      intro copy
      split
      · refine bind (forM fun kid _ => ?_) fun _ => pure copy
        exact bind (ih kid true) fun child => bind (insertBefore copy child none) fun _ => pure _
      · exact pure copy
    rw [hsome, hkids]
    dsimp only
    rcases node.content with _ | _ | _ | e | _ | _
    case element =>
      refine bind (create _) (fun copy => ?_) t ht
      rcases e.contents with _ | contents
      · exact bind (pure copy) hrest
      · refine ite (bind (ih contents true) fun _ => ?_) (bind (create _) fun _ => ?_)
        all_goals exact bind (setContent copy _) fun _ => bind (pure copy) hrest
    all_goals exact bind (create _) hrest t ht

theorem copy (x : NodeId) (deep : Bool) : Mirrors (Edit.copy x deep) (LinkEdit.copy x deep) := by
  refine get_bind fun t ht => ?_
  rw [size_links]
  exact copyWithin t.size x deep t ht

end Mirrors

/-! ## Runs of edits -/

theorem Operation.mirrors_run (operation : Operation) :
    Mirrors operation.run operation.linkedRun := by
  cases operation with
  | createElement tag => exact (Mirrors.createElement tag).discard
  | createText text => exact (Mirrors.create _).discard
  | createComment text => exact (Mirrors.create _).discard
  | createFragment => exact (Mirrors.create _).discard
  | createDoctype name => exact (Mirrors.create _).discard
  | insert parent child reference => exact (Mirrors.insertBefore parent child reference).discard
  | removeChild parent child => exact (Mirrors.removeChild parent child).discard
  | remove id => exact (Mirrors.remove id).discard
  | copy id deep => exact (Mirrors.copy id deep).discard
  | setAttribute id name value => exact Mirrors.setAttribute id name value
  | removeAttribute id name => exact (Mirrors.removeAttribute id name).discard
  | setText id text => exact Mirrors.setText id text

namespace Tree

/-- The tree after edits carried out one after the other, also when some of them are refused. -/
def after (t : Tree) (operations : List Operation) : Tree :=
  operations.foldl (fun t operation => operation.apply t) t

theorem edited_after (t : Tree) (operations : List Operation) : t.Edited (t.after operations) := by
  induction operations generalizing t with
  | nil => exact Relation.ReflTransGen.refl
  | cons operation rest ih => exact (Edited.one t operation).trans (ih _)

end Tree

/-- The arena after edits carried out one after the other, also when some of them are refused. -/
def Links.after (a : Links) (operations : List Operation) : Links :=
  operations.foldl (fun a operation => (exec operation.linkedRun a).2) a

/-- A run of edits on links leaves what the run on the tree leaves. -/
theorem links_after (h : t.Tidy) (operations : List Operation) :
    t.links.after operations = (t.after operations).links := by
  induction operations generalizing t with
  | nil => rfl
  | cons operation rest ih =>
    obtain ⟨htidy, hrun⟩ := operation.mirrors_run t h
    show Links.after (exec operation.linkedRun t.links).2 rest = _
    rw [hrun]
    exact ih htidy

end Repeater.Dom
