import Mathlib.Data.List.Basic
import Mathlib.Data.List.Infix
import Mathlib.Logic.Function.Basic

/-!
Radix trees stored page by page in a flat store.

A page is an array of entries, and an entry either names the page of the next level or ends the
walk. Nothing in the store says which pages belong to a tree, so the laws below rest on the one
assumption that no page is reached along two different paths.
-/

namespace Radix

variable {Page Slot Entry : Type*}

section Store

variable [DecidableEq Page]

/-- Giving every entry of one page the same content. -/
def fill (store : Page → Slot → Entry) (page : Page) (entry : Entry) : Page → Slot → Entry :=
  Function.update store page fun _ => entry

@[simp] theorem fill_self (store : Page → Slot → Entry) (page : Page) (entry : Entry)
    (index : Slot) : fill store page entry page index = entry := by
  simp [fill]

theorem fill_other (store : Page → Slot → Entry) {page at_ : Page} (entry : Entry)
    (other : at_ ≠ page) (index : Slot) : fill store page entry at_ index = store at_ index := by
  simp [fill, other]

variable [DecidableEq Slot]

/-- Replacing one entry of one page. -/
def set (store : Page → Slot → Entry) (page : Page) (slot : Slot) (entry : Entry) :
    Page → Slot → Entry :=
  Function.update store page (Function.update (store page) slot entry)

@[simp] theorem set_self (store : Page → Slot → Entry) (page : Page) (slot : Slot)
    (entry : Entry) : set store page slot entry page slot = entry := by
  simp [set]

/-- Every other entry, on the same page or elsewhere, keeps its content. -/
theorem set_other (store : Page → Slot → Entry) {page at_ : Page} {slot index : Slot}
    (entry : Entry) (other : ¬ (at_ = page ∧ index = slot)) :
    set store page slot entry at_ index = store at_ index := by
  by_cases same : at_ = page
  · subst same
    have different : index ≠ slot := fun equal => other ⟨rfl, equal⟩
    simp [set, different]
  · simp [set, same]

end Store

variable (child : Entry → Option Page)

/-- The page reached from a root along a list of slots. -/
def descend (store : Page → Slot → Entry) : Page → List Slot → Option Page
  | page, [] => some page
  | page, slot :: rest => (child (store page slot)).bind fun next => descend store next rest

/-- Walking as far as the entries allow: the slots left over, and the entry the walk ends at. -/
def walk (store : Page → Slot → Entry) : Page → Slot → List Slot → Nat × Entry
  | page, slot, [] => (0, store page slot)
  | page, slot, next :: rest =>
    match child (store page slot) with
    | some below => walk store below next rest
    | none => (rest.length + 1, store page slot)

/-- The entry the walk ends at, as its page and its place there. -/
def locate (store : Page → Slot → Entry) : Page → Slot → List Slot → Page × Slot
  | page, slot, [] => (page, slot)
  | page, slot, next :: rest =>
    match child (store page slot) with
    | some below => locate store below next rest
    | none => (page, slot)

/-- Down to a depth no page is reached along two different paths. -/
def Unshared (store : Page → Slot → Entry) (root : Page) (depth : Nat) : Prop :=
  ∀ P Q page, P.length ≤ depth → Q.length ≤ depth →
    descend child store root P = some page → descend child store root Q = some page → P = Q

/-- A page outside the tree, down to a depth. -/
def Unreached (store : Page → Slot → Entry) (root : Page) (depth : Nat) (page : Page) : Prop :=
  ∀ P, P.length ≤ depth → descend child store root P ≠ some page

section Paths

variable {child} {store : Page → Slot → Entry} {root : Page}

/-- Descending a joined path is descending its two parts. -/
theorem descend_append (P Q : List Slot) :
    descend child store root (P ++ Q) =
      (descend child store root P).bind fun page => descend child store page Q := by
  -- The two sides follow the same first slot, and stop there together.
  induction P generalizing root with
  | nil => rfl
  | cons slot rest ih =>
    simp only [List.cons_append, descend]
    cases child (store root slot) with
    | none => rfl
    | some next => simpa using ih

/-- Descending one more slot reads one entry of the page reached so far. -/
theorem descend_concat (P : List Slot) (slot : Slot) :
    descend child store root (P ++ [slot]) =
      (descend child store root P).bind fun page => child (store page slot) := by
  rw [descend_append]
  congr 1
  funext page
  simp only [descend]
  cases child (store page slot) <;> rfl

/-- A walk whose page is known continues from that page. -/
theorem walk_of_descend {page : Page} (slot : Slot) (rest : List Slot) :
    ∀ {P : List Slot} {root : Page} {first : Slot} {more : List Slot},
      first :: more = P ++ slot :: rest → descend child store root P = some page →
      walk child store root first more = walk child store page slot rest := by
  -- The induction follows the descended prefix, which the walk takes slot by slot.
  intro P
  induction P with
  | nil =>
    intro root first more split reached
    simp only [descend, Option.some.injEq] at reached
    simp only [List.nil_append, List.cons.injEq] at split
    rw [reached, split.1, split.2]
  | cons step P ih =>
    intro root first more split reached
    simp only [List.cons_append, List.cons.injEq] at split
    obtain ⟨rfl, rest_eq⟩ := split
    simp only [descend, Option.bind_eq_some_iff] at reached
    obtain ⟨next, linked, reached⟩ := reached
    cases more with
    | nil => simp at rest_eq
    | cons second more =>
      -- The walk follows the child that the descent has followed.
      rw [walk, linked]
      exact ih rest_eq reached

/-- A store that agrees on every entry the descent reads reaches the same page. -/
theorem descend_congr {other : Page → Slot → Entry} :
    ∀ (Q : List Slot), (∀ P slot page, P ++ [slot] <+: Q → descend child store root P = some page →
      other page slot = store page slot) →
      descend child other root Q = descend child store root Q := by
  intro Q
  -- Peeling the last slot leaves a shorter path, all of whose reads are among the given ones.
  induction Q using List.reverseRecOn with
  | nil => intro _; rfl
  | append_singleton Q slot ih =>
    intro agree
    have shorter := ih fun P index page front =>
      agree P index page (front.trans (List.prefix_append Q [slot]))
    rw [descend_concat, descend_concat, shorter]
    cases reached : descend child store root Q with
    | none => rfl
    | some page =>
      simp only [Option.bind_some]
      rw [agree Q slot page (List.prefix_refl _) reached]

/-- A store that agrees on every entry the walk reads ends it at the same place. -/
theorem walk_congr {other : Page → Slot → Entry} :
    ∀ (rest : List Slot) (root : Page) (first : Slot),
      (∀ P slot page, P ++ [slot] <+: first :: rest → descend child store root P = some page →
        other page slot = store page slot) →
      walk child other root first rest = walk child store root first rest := by
  intro rest
  induction rest with
  | nil =>
    intro root first agree
    have here := agree [] first root (by simp) rfl
    simp only [walk, here]
  | cons next rest ih =>
    intro root first agree
    have here := agree [] first root (by simp) rfl
    simp only [walk, here]
    -- Both walks read the same entry here, and go to the same page.
    cases linked : child (store root first) with
    | none => rfl
    | some below =>
      -- Reads below the next page are reads of the whole path with its first slot put back.
      apply ih
      intro P slot page front reached
      exact agree (first :: P) slot page (by simpa using front)
        (by simp only [descend, linked, Option.bind_some, reached])

/-- A walk leaves no more slots over than it was given. -/
theorem walk_fst_le (page : Page) (slot : Slot) (rest : List Slot) :
    (walk child store page slot rest).1 ≤ rest.length := by
  induction rest generalizing page slot with
  | nil => exact Nat.le_refl 0
  | cons next rest ih =>
    rw [walk]
    split
    · exact Nat.le_trans (ih _ _) (Nat.le_succ _)
    · exact Nat.le_refl _

/-- A walk that uses up its slots ends in the page its other slots lead to. -/
theorem locate_of_walk (rest : List Slot) :
    ∀ {root : Page} {first : Slot}, (walk child store root first rest).1 = 0 →
      ∃ P page last, first :: rest = P ++ [last] ∧ descend child store root P = some page ∧
        locate child store root first rest = (page, last) ∧
        (walk child store root first rest).2 = store page last := by
  -- A full walk has followed a child at every slot but the last.
  induction rest with
  | nil =>
    intro root first _
    exact ⟨[], root, first, rfl, rfl, rfl, rfl⟩
  | cons next rest ih =>
    intro root first full
    cases linked : child (store root first) with
    | none => simp [walk, linked] at full
    | some below =>
      simp only [walk, locate, linked] at full ⊢
      obtain ⟨P, page, last, split, reached, located, ended⟩ := ih full
      refine ⟨first :: P, page, last, by rw [split, List.cons_append], ?_, located, ended⟩
      rw [descend, linked]
      exact reached

end Paths

/-- A walk that ends at an empty entry above the last level may end lower, at an empty entry. -/
def Kept (empty : Entry) (before after : Nat × Entry) : Prop :=
  after = before ∨ 0 < before.1 ∧ before.2 = empty ∧ after.2 = empty

theorem Kept.refl (empty : Entry) (walked : Nat × Entry) : Kept empty walked walked :=
  Or.inl rfl

theorem Kept.trans {empty : Entry} {first second third : Nat × Entry}
    (before : Kept empty first second) (after : Kept empty second third) :
    Kept empty first third := by
  -- Once the walk ends at an empty entry, a further step cannot fill it.
  rcases before with same | ⟨above, vacant, still⟩
  · exact same ▸ after
  · rcases after with same | ⟨_, _, again⟩
    · exact Or.inr ⟨above, vacant, same ▸ still⟩
    · exact Or.inr ⟨above, vacant, again⟩

variable {child} in
/-- Paths that lead where they led are apart as they were. -/
theorem Unshared.congr {store store' : Page → Slot → Entry} {root : Page} {depth : Nat}
    (unshared : Unshared child store root depth)
    (same : ∀ Q : List Slot, Q.length ≤ depth →
      descend child store' root Q = descend child store root Q) :
    Unshared child store' root depth := by
  intro Q R page shortQ shortR locatedQ locatedR
  rw [same Q shortQ] at locatedQ
  rw [same R shortR] at locatedR
  exact unshared Q R page shortQ shortR locatedQ locatedR

/-- A path that goes on inside of another one is shorter. -/
theorem length_lt_of_front {P Q : List Slot} {slot : Slot} (front : P ++ [slot] <+: Q) :
    P.length < Q.length := by
  have length := front.length_le
  rw [List.length_append, List.length_singleton] at length
  exact length

/-- No path is a part of itself followed by one more slot. -/
theorem concat_not_within (P : List Slot) (slot : Slot) : ¬ P ++ [slot] <+: P :=
  fun front => Nat.lt_irrefl _ (length_lt_of_front front)

section Updates

variable {child} {store : Page → Slot → Entry} {root page fresh : Page} {depth : Nat}
  {P : List Slot} {slot : Slot} {entry empty : Entry}

variable [DecidableEq Page]

/-- Filling a page outside the tree leaves every descent alone. -/
theorem descend_fill (unreached : Unreached child store root depth fresh) {Q : List Slot}
    (within : Q.length ≤ depth) :
    descend child (fill store fresh empty) root Q = descend child store root Q := by
  refine descend_congr Q fun R index at_ front located => fill_other store empty ?_ index
  -- The way passes through no page that is outside of the tree.
  rintro rfl
  exact unreached R (Nat.le_trans (Nat.le_of_lt (length_lt_of_front front)) within) located

/-- Filling a page outside the tree leaves every walk alone. -/
theorem walk_fill (unreached : Unreached child store root depth fresh) {first : Slot}
    {rest : List Slot} (within : rest.length ≤ depth) :
    walk child (fill store fresh empty) root first rest = walk child store root first rest := by
  refine walk_congr rest root first fun R index at_ front located => fill_other store empty ?_ index
  rintro rfl
  exact unreached R (Nat.le_trans (Nat.le_of_lt_succ (length_lt_of_front front)) within) located

/-- Filling a page outside the tree keeps the paths apart. -/
theorem unshared_fill (unshared : Unshared child store root depth)
    (unreached : Unreached child store root depth fresh) :
    Unshared child (fill store fresh empty) root depth :=
  unshared.congr fun _ => descend_fill unreached

variable [DecidableEq Slot]

/-- Writing an entry leaves every descent that does not read it alone. -/
theorem descend_set (unshared : Unshared child store root depth) (short : P.length ≤ depth)
    (reached : descend child store root P = some page) {Q : List Slot} (within : Q.length ≤ depth)
    (apart : ¬ P ++ [slot] <+: Q) :
    descend child (set store page slot entry) root Q = descend child store root Q := by
  refine descend_congr Q fun R index at_ front located => set_other store entry ?_
  -- Reading the written entry means having followed the path to its page.
  rintro ⟨rfl, rfl⟩
  have shorter := Nat.le_trans (Nat.le_of_lt (length_lt_of_front front)) within
  have same := unshared R P at_ shorter short located reached
  exact apart (same ▸ front)

/-- Writing an entry leaves every walk that does not read it alone. -/
theorem walk_set (unshared : Unshared child store root depth) (short : P.length ≤ depth)
    (reached : descend child store root P = some page) {first : Slot} {rest : List Slot}
    (within : rest.length ≤ depth) (apart : ¬ P ++ [slot] <+: first :: rest) :
    walk child (set store page slot entry) root first rest = walk child store root first rest := by
  refine walk_congr rest root first fun R index at_ front located => set_other store entry ?_
  rintro ⟨rfl, rfl⟩
  -- A walk that meets the written slot has come along the one path to its page.
  have shorter := Nat.le_trans (Nat.le_of_lt_succ (length_lt_of_front front)) within
  have same := unshared R P at_ shorter short located reached
  exact apart (same ▸ front)

/-! ### Writing an entry of the last level -/

/-- An entry of the last level is below every page, so no descent changes. -/
theorem descend_set_leaf (unshared : Unshared child store root depth) (last : P.length = depth)
    (reached : descend child store root P = some page) {Q : List Slot} (within : Q.length ≤ depth) :
    descend child (set store page slot entry) root Q = descend child store root Q := by
  refine descend_set unshared (Nat.le_of_eq last) reached within fun front => ?_
  -- The slot that is written is behind the last level that a path reaches.
  exact absurd within (Nat.not_le_of_lt (last ▸ length_lt_of_front front))

/-- Writing an entry of the last level keeps the paths apart. -/
theorem unshared_set_leaf (unshared : Unshared child store root depth) (last : P.length = depth)
    (reached : descend child store root P = some page) :
    Unshared child (set store page slot entry) root depth :=
  unshared.congr fun _ => descend_set_leaf unshared last reached

/-- The walk to a written entry of the last level ends at what was written. -/
theorem walk_set_leaf (unshared : Unshared child store root depth) (short : P.length ≤ depth)
    (reached : descend child store root P = some page) {first : Slot} {rest : List Slot}
    (path : first :: rest = P ++ [slot]) :
    walk child (set store page slot entry) root first rest = (0, entry) := by
  have kept : descend child (set store page slot entry) root P = descend child store root P :=
    descend_set unshared short reached short (concat_not_within P slot)
  rw [walk_of_descend slot [] path (kept.trans reached)]
  simp [walk]

/-! ### Linking a fresh page below an empty entry -/

/-- Clearing a page outside the tree and pointing an entry at it. -/
def link (store : Page → Slot → Entry) (page : Page) (slot : Slot) (fresh : Page)
    (empty entry : Entry) : Page → Slot → Entry :=
  set (fill store fresh empty) page slot entry

/-- The conditions under which a link is made: an empty entry of the tree, and an unused page. -/
structure Linkable (child : Entry → Option Page) (store : Page → Slot → Entry) (root : Page)
    (depth : Nat) (P : List Slot) (page : Page) (slot : Slot) (fresh : Page)
    (empty entry : Entry) : Prop where
  unshared : Unshared child store root depth
  short : P.length < depth
  reached : descend child store root P = some page
  vacant : store page slot = empty
  unreached : Unreached child store root depth fresh
  childless : child empty = none
  points : child entry = some fresh

section Link

variable (linkable : Linkable child store root depth P page slot fresh empty entry)

include linkable

omit [DecidableEq Page] [DecidableEq Slot] in
/-- The new page is another one than the page that points to it. -/
theorem Linkable.distinct : fresh ≠ page := by
  rintro rfl
  exact linkable.unreached P (Nat.le_of_lt linkable.short) linkable.reached

omit [DecidableEq Slot] in
/-- After clearing the new page the path to the entry is still there. -/
theorem Linkable.filled :
    descend child (fill store fresh empty) root P = some page :=
  (descend_fill linkable.unreached (Nat.le_of_lt linkable.short)).trans linkable.reached

/-- Paths that do not pass through the new entry lead where they led. -/
theorem Linkable.descend_apart {Q : List Slot} (within : Q.length ≤ depth)
    (apart : ¬ P ++ [slot] <+: Q) :
    descend child (link store page slot fresh empty entry) root Q =
      descend child store root Q := by
  rw [link, descend_set (unshared_fill linkable.unshared linkable.unreached)
    (Nat.le_of_lt linkable.short) linkable.filled within apart]
  exact descend_fill linkable.unreached within

/-- The path through the new entry leads to the new page. -/
theorem Linkable.descend_self :
    descend child (link store page slot fresh empty entry) root (P ++ [slot]) = some fresh := by
  rw [descend_concat, linkable.descend_apart (Nat.le_of_lt linkable.short)
    (concat_not_within P slot), linkable.reached, Option.bind_some, link, set_self,
    linkable.points]

/-- The new page is empty, so no path leads below it. -/
theorem Linkable.descend_below (next : Slot) (more : List Slot) :
    descend child (link store page slot fresh empty entry) root (P ++ slot :: next :: more) =
      none := by
  have split : P ++ slot :: next :: more = (P ++ [slot]) ++ next :: more := by simp
  rw [split, descend_append, linkable.descend_self, Option.bind_some, descend, link,
    set_other _ _ (fun same => linkable.distinct same.1), fill_self, linkable.childless,
    Option.bind_none]

/-- Every page that was reached is still reached along the same path. -/
theorem Linkable.descend_keeps {Q : List Slot} {at_ : Page} (within : Q.length ≤ depth)
    (located : descend child store root Q = some at_) :
    descend child (link store page slot fresh empty entry) root Q = some at_ := by
  rw [linkable.descend_apart within, located]
  -- A path through the entry led nowhere, because the entry was empty.
  rintro ⟨more, rfl⟩
  rw [descend_append, descend_concat, linkable.reached, Option.bind_some, linkable.vacant,
    linkable.childless, Option.bind_none] at located
  cases located

/-- Paths that now lead somewhere led there before, or lead to the new page. -/
theorem Linkable.descend_cases {Q : List Slot} {at_ : Page} (within : Q.length ≤ depth)
    (located : descend child (link store page slot fresh empty entry) root Q = some at_) :
    descend child store root Q = some at_ ∨ Q = P ++ [slot] ∧ at_ = fresh := by
  -- Only a path through the new link can see it, and the new page has no children.
  by_cases through : P ++ [slot] <+: Q
  · obtain ⟨more, rfl⟩ := through
    cases more with
    | nil =>
      rw [List.append_nil, linkable.descend_self] at located
      exact Or.inr ⟨List.append_nil _, (Option.some.inj located).symm⟩
    | cons next more =>
      rw [List.append_assoc, List.singleton_append, linkable.descend_below] at located
      cases located
  · exact Or.inl (linkable.descend_apart within through ▸ located)

/-- A link to an unused page keeps the paths apart. -/
theorem Linkable.unshared_link :
    Unshared child (link store page slot fresh empty entry) root depth := by
  intro Q R at_ shortQ shortR locatedQ locatedR
  -- The new page had no path before, so two paths meet there only if both are new.
  rcases linkable.descend_cases shortQ locatedQ with oldQ | ⟨rfl, rfl⟩
  · rcases linkable.descend_cases shortR locatedR with oldR | ⟨rfl, rfl⟩
    · exact linkable.unshared Q R at_ shortQ shortR oldQ oldR
    · exact absurd oldQ (linkable.unreached Q shortQ)
  · rcases linkable.descend_cases shortR locatedR with oldR | ⟨rfl, _⟩
    · exact absurd oldR (linkable.unreached R shortR)
    · rfl

/-- Every other unused page is still unused. -/
theorem Linkable.unreached_link {other : Page} (unused : Unreached child store root depth other)
    (different : other ≠ fresh) :
    Unreached child (link store page slot fresh empty entry) root depth other := by
  intro Q within located
  rcases linkable.descend_cases within located with old | ⟨_, same⟩
  · exact unused Q within old
  · exact different same

/-- A link changes only where walks through an empty entry end, and they still end empty. -/
theorem Linkable.walk_kept {first : Slot} {rest : List Slot} (full : rest.length = depth) :
    Kept empty (walk child store root first rest)
      (walk child (link store page slot fresh empty entry) root first rest) := by
  by_cases through : P ++ [slot] <+: first :: rest
  · obtain ⟨more, path⟩ := through
    cases more with
    | nil =>
      -- The new entry lies above the last level, so a full path continues past it.
      have lengths := congrArg List.length path
      have short := linkable.short
      simp only [List.append_nil, List.length_append, List.length_cons, List.length_nil] at lengths
      omega
    | cons next more =>
      -- Before the link the walk ends at the empty entry.
      have before : walk child store root first rest = (more.length + 1, empty) := by
        rw [walk_of_descend slot (next :: more) (by simp [← path]) linkable.reached, walk,
          linkable.vacant, linkable.childless]
      -- Afterwards it goes on into the new page, and ends there at once.
      have after : walk child (link store page slot fresh empty entry) root first rest =
          walk child (link store page slot fresh empty entry) fresh next more :=
        walk_of_descend next more (by simp [← path]) linkable.descend_self
      have cleared : link store page slot fresh empty entry fresh next = empty := by
        rw [link, set_other _ _ (fun same => linkable.distinct same.1), fill_self]
      refine Or.inr ⟨by rw [before]; exact Nat.succ_pos _, by rw [before], ?_⟩
      rw [after]
      cases more with
      | nil => rw [walk, cleared]
      | cons _ _ => rw [walk, cleared, linkable.childless]
  · refine Or.inl ?_
    rw [link, walk_set (unshared_fill linkable.unshared linkable.unreached)
      (Nat.le_of_lt linkable.short) linkable.filled (Nat.le_of_eq full) through]
    exact walk_fill linkable.unreached (Nat.le_of_eq full)

end Link

/-! ### Other trees in the same store -/

variable (child) in
/-- An update of one tree and of some unused pages leaves every other page alone, and outside. -/
def Spares (store store' : Page → Slot → Entry) (root : Page) (depth : Nat) (used : Page → Prop) :
    Prop :=
  ∀ page, Unreached child store root depth page → ¬ used page →
    store' page = store page ∧ Unreached child store' root depth page

variable (child) in
/-- A tree whose pages are neither in the updated tree nor among the unused pages. -/
def Beside (store : Page → Slot → Entry) (root : Page) (depth : Nat) (used : Page → Prop)
    (other : Page) : Prop :=
  ∀ P page, P.length ≤ depth → descend child store other P = some page →
    Unreached child store root depth page ∧ ¬ used page

section Spares

variable {store' store'' : Page → Slot → Entry} {used used' : Page → Prop} {other : Page}

omit [DecidableEq Page] [DecidableEq Slot] in
theorem Spares.refl : Spares child store store root depth used :=
  fun _ outside _ => ⟨rfl, outside⟩

omit [DecidableEq Page] [DecidableEq Slot] in
/-- Two updates in a row spare what neither of them uses. -/
theorem Spares.trans (first : Spares child store store' root depth used)
    (second : Spares child store' store'' root depth used')
    (less : ∀ page, used' page → used page) : Spares child store store'' root depth used := by
  intro page outside unused
  obtain ⟨same, outside'⟩ := first page outside unused
  obtain ⟨same', outside''⟩ := second page outside' fun taken => unused (less page taken)
  exact ⟨same'.trans same, outside''⟩

/-- A link spares every page but the one it links. -/
theorem Linkable.spares (linkable : Linkable child store root depth P page slot fresh empty entry)
    (taken : used fresh) :
    Spares child store (link store page slot fresh empty entry) root depth used := by
  intro at_ outside unused
  -- A page outside of the tree is neither the one that is linked to nor the one that links.
  have notFresh : at_ ≠ fresh := fun same => unused (same ▸ taken)
  have notPage : at_ ≠ page := fun same =>
    outside P (Nat.le_of_lt linkable.short) (same ▸ linkable.reached)
  refine ⟨?_, linkable.unreached_link outside notFresh⟩
  funext index
  rw [link, set_other _ _ (fun same => notPage same.1), fill_other _ _ notFresh]

/-- A new entry of the last level spares every page outside the tree. -/
theorem spares_set_leaf (unshared : Unshared child store root depth) (last : P.length = depth)
    (reached : descend child store root P = some page) :
    Spares child store (set store page slot entry) root depth used := by
  intro at_ outside _
  have other : at_ ≠ page := fun same => outside P (Nat.le_of_eq last) (same ▸ reached)
  refine ⟨funext fun index => set_other _ _ (fun same => other same.1), fun Q within => ?_⟩
  rw [descend_set_leaf unshared last reached within]
  exact outside Q within

omit [DecidableEq Page] [DecidableEq Slot] in
/-- Descents in a spared tree are what they were. -/
theorem Spares.descend (spares : Spares child store store' root depth used)
    (beside : Beside child store root depth used other) {Q : List Slot} (within : Q.length ≤ depth) :
    descend child store' other Q = descend child store other Q := by
  refine descend_congr Q fun R index at_ front located => ?_
  have shorter := Nat.le_trans (Nat.le_of_lt (length_lt_of_front front)) within
  -- A page that is reached from beside is no page of the tree.
  obtain ⟨outside, unused⟩ := beside R at_ shorter located
  exact congrFun (spares at_ outside unused).1 index

omit [DecidableEq Page] [DecidableEq Slot] in
/-- Walks in a spared tree are what they were. -/
theorem Spares.walk (spares : Spares child store store' root depth used)
    (beside : Beside child store root depth used other) {first : Slot} {rest : List Slot}
    (within : rest.length ≤ depth) :
    walk child store' other first rest = walk child store other first rest := by
  refine walk_congr rest other first fun R index at_ front located => ?_
  have shorter := Nat.le_trans (Nat.le_of_lt_succ (length_lt_of_front front)) within
  obtain ⟨outside, unused⟩ := beside R at_ shorter located
  exact congrFun (spares at_ outside unused).1 index

omit [DecidableEq Page] [DecidableEq Slot] in
/-- A spared tree is still beside the updated one. -/
theorem Spares.beside (spares : Spares child store store' root depth used)
    (beside : Beside child store root depth used other) (less : ∀ page, used' page → used page) :
    Beside child store' root depth used' other := by
  intro Q at_ within located
  rw [spares.descend beside within] at located
  obtain ⟨outside, unused⟩ := beside Q at_ within located
  exact ⟨(spares at_ outside unused).2, fun taken => unused (less at_ taken)⟩

end Spares

end Updates

end Radix
