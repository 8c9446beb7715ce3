import Flowchart.Proofs.Graph.Faithful
import Flowchart.Proofs.Graph.Roots
import Flowchart.Session.Outline

/-!
# Outlines are complete

An outline lists a block when it comes to it for the first time and follows all its links from
there. Listing therefore ends on every graph, cycles or not, and the outline shows the blocks
that can be reached from its roots, each of them once.
-/

namespace Flowchart.Outline

open Relation Flowchart.Graph

variable {g : Graph}

/-! ## Links -/

/-- Where the links of a block lead, in the order in which an outline follows them. -/
def exits (g : Graph) (h : Handle) : List Handle :=
  match g.node? h with
  | some n => n.onTrue.toList ++ n.onFalse.toList ++ n.next.toList
  | none => []

theorem exits_of_node {h : Handle} {n : Node} (hn : g.node? h = some n) :
    exits g h = n.onTrue.toList ++ n.onFalse.toList ++ n.next.toList := by
  simp [exits, hn]

theorem mem_exits_iff {h h' : Handle} : h' ∈ exits g h ↔ ControlLink g h h' := by
  unfold exits ControlLink
  simp only [node_eq_ok_iff]
  cases hn : g.node? h with
  | none =>
    rw [node?] at hn
    simp [hn]
  | some n =>
    rw [node?] at hn
    simp only [hn, List.mem_append, Option.mem_toList, Option.some.injEq, exists_eq_left']
    tauto

def Reachable (g : Graph) (h : Handle) : Prop :=
  ∃ root, IsRoot g root ∧ ReflTransGen (ControlLink g) root h

theorem mem_roots_iff {records : List Record} (hb : build records = .ok g) (h : Handle) :
    h ∈ roots g ↔ IsRoot g h := by
  unfold roots IsRoot
  simp only [List.mem_append, Option.mem_toList, List.mem_filter, List.mem_range,
    Option.any_eq_true, decide_eq_true_eq, node_eq_ok_iff]
  constructor
  · rintro (hstart | ⟨-, n, hn, hkind⟩)
    · obtain ⟨n, hn, hkind⟩ := kind_of_start hb hstart
      exact ⟨n, node_eq_ok_iff.mp hn, Or.inl hkind⟩
    · exact ⟨n, hn, Or.inr hkind⟩
  · rintro ⟨n, hn, hkind | hkind⟩
    · obtain ⟨r, hr, rfl⟩ := (node_of_build hb).mp (node_eq_ok_iff.mpr hn)
      exact Or.inl ((start_iff_of_build hb).mpr ⟨r, hr, hkind⟩)
    · exact Or.inr ⟨lt_size_of_node (node_eq_ok_iff.mpr hn), n, hn, hkind⟩

/-! ## Listing without a bound -/

/-- The lines of a branch with its heading. -/
def headed (taken : Bool) (level : Nat) (target : Option Handle) (lines : List (Nat × Entry)) :
    List (Nat × Entry) :=
  match target with
  | some _ => (level + 1, .branch taken) :: lines
  | none => lines

/-- Listing a chain to its end: the lines it gives, and what has been visited before and after. -/
inductive Listing (g : Graph) :
    Nat → Option Handle → List Handle → List (Nat × Entry) → List Handle → Prop
  | stop (level : Nat) (visited : List Handle) : Listing g level none visited [] visited
  | again (level : Nat) {visited : List Handle} {h : Handle} {n : Node} (hn : g.node? h = some n)
      (hv : h ∈ visited) :
      Listing g level (some h) visited [(level, .again n)] visited
  | block {level : Nat} {visited v₁ v₂ v₃ : List Handle} {l₁ l₂ l₃ : List (Nat × Entry)}
      {h : Handle} {n : Node} (hn : g.node? h = some n) (hv : h ∉ visited)
      (onTrue : Listing g (level + 2) n.onTrue (h :: visited) l₁ v₁)
      (onFalse : Listing g (level + 2) n.onFalse v₁ l₂ v₂)
      (next : Listing g level n.next v₂ l₃ v₃) :
      Listing g level (some h) visited
        ((level, .block n) ::
          (headed true level n.onTrue l₁ ++ headed false level n.onFalse l₂ ++ l₃)) v₃

/-- Listing the chains from several blocks, one after the other. -/
inductive Listings (g : Graph) : List Handle → List Handle → List (Nat × Entry) → List Handle → Prop
  | nil (visited : List Handle) : Listings g [] visited [] visited
  | cons {h : Handle} {starts visited v₁ v₂ : List Handle} {l₁ l₂ : List (Nat × Entry)}
      (first : Listing g 0 (some h) visited l₁ v₁) (others : Listings g starts v₁ l₂ v₂) :
      Listings g (h :: starts) visited (l₁ ++ l₂) v₂

/-! ## What has been listed -/

def listed (lines : List (Nat × Entry)) : List Node :=
  lines.filterMap fun line => match line.2 with
    | .block n => some n
    | _ => none

def referred (lines : List (Nat × Entry)) : List Node :=
  lines.filterMap fun line => match line.2 with
    | .again n => some n
    | _ => none

section Lines

variable (l l' : List (Nat × Entry)) (level : Nat) (n : Node)

@[simp] theorem listed_append : listed (l ++ l') = listed l ++ listed l' := List.filterMap_append ..

@[simp] theorem referred_append :
    referred (l ++ l') = referred l ++ referred l' := List.filterMap_append ..

@[simp] theorem listed_block : listed ((level, .block n) :: l) = n :: listed l := rfl

@[simp] theorem referred_block : referred ((level, .block n) :: l) = referred l := rfl

@[simp] theorem listed_headed (taken : Bool) (target : Option Handle) :
    listed (headed taken level target l) = listed l := by
  cases target <;> rfl

@[simp] theorem referred_headed (taken : Bool) (target : Option Handle) :
    referred (headed taken level target l) = referred l := by
  cases target <;> rfl

end Lines

/-- What listing the chains from `starts` comes to: the blocks `order` are new, and all that their
links lead to has been visited in the end. -/
structure Account (g : Graph) (starts before : List Handle) (lines : List (Nat × Entry))
    (after order : List Handle) : Prop where
  visits : after = order.reverse ++ before
  distinct : order.Nodup
  fresh : ∀ h ∈ order, h ∉ before
  blocks : (listed lines).map some = order.map g.node?
  count : (listed lines).length + (referred lines).length =
    starts.length + (order.flatMap (exits g)).length
  reached : ∀ h ∈ order, ∃ start ∈ starts, ReflTransGen (ControlLink g) start h
  begun : ∀ h ∈ starts, h ∈ after
  closed : ∀ h ∈ order, ∀ h' ∈ exits g h, h' ∈ after

namespace Account

variable {starts starts' visited v₁ v₂ order order' : List Handle} {l l' : List (Nat × Entry)}

theorem nil (g : Graph) (visited : List Handle) : Account g [] visited [] visited [] where
  visits := rfl
  distinct := List.nodup_nil
  fresh := by simp
  blocks := rfl
  count := rfl
  reached := by simp
  begun := by simp
  closed := by simp

theorem again {level : Nat} {h : Handle} {n : Node} (hv : h ∈ visited) :
    Account g [h] visited [(level, .again n)] visited [] where
  visits := rfl
  distinct := List.nodup_nil
  fresh := by simp
  blocks := rfl
  count := rfl
  reached := by simp
  begun := by simpa using hv
  closed := by simp

theorem mono (a : Account g starts visited l v₁ order) {h : Handle} (hh : h ∈ visited) :
    h ∈ v₁ := by
  rw [a.visits]
  exact List.mem_append_right _ hh

theorem mem_of_order (a : Account g starts visited l v₁ order) {h : Handle} (hh : h ∈ order) :
    h ∈ v₁ := by
  rw [a.visits]
  exact List.mem_append_left _ (List.mem_reverse.mpr hh)

theorem append (a : Account g starts visited l v₁ order) (a' : Account g starts' v₁ l' v₂ order') :
    Account g (starts ++ starts') visited (l ++ l') v₂ (order ++ order') where
  visits := by rw [a'.visits, a.visits, List.reverse_append, List.append_assoc]
  distinct := by
    refine List.nodup_append.mpr ⟨a.distinct, a'.distinct, ?_⟩
    rintro h hh h' hh' rfl
    exact a'.fresh h hh' (a.mem_of_order hh)
  fresh := by
    intro h hh hv
    rcases List.mem_append.mp hh with hh | hh
    · exact a.fresh h hh hv
    · exact a'.fresh h hh (a.mono hv)
  blocks := by rw [listed_append, List.map_append, List.map_append, a.blocks, a'.blocks]
  count := by
    have hcount := a.count
    have hcount' := a'.count
    simp only [listed_append, referred_append, List.length_append, List.flatMap_append]
    omega
  reached := by
    intro h hh
    rcases List.mem_append.mp hh with hh | hh
    · obtain ⟨start, hs, hr⟩ := a.reached h hh
      exact ⟨start, List.mem_append_left _ hs, hr⟩
    · obtain ⟨start, hs, hr⟩ := a'.reached h hh
      exact ⟨start, List.mem_append_right _ hs, hr⟩
  begun := by
    intro h hh
    rcases List.mem_append.mp hh with hh | hh
    · exact a'.mono (a.begun h hh)
    · exact a'.begun h hh
  closed := by
    intro h hh h' hh'
    rcases List.mem_append.mp hh with hh | hh
    · exact a'.mono (a.closed h hh h' hh')
    · exact a'.closed h hh h' hh'

theorem headed (a : Account g starts visited l v₁ order) (taken : Bool) (level : Nat)
    (target : Option Handle) :
    Account g starts visited (headed taken level target l) v₁ order where
  visits := a.visits
  distinct := a.distinct
  fresh := a.fresh
  blocks := by rw [listed_headed, a.blocks]
  count := by rw [listed_headed, referred_headed, a.count]
  reached := a.reached
  begun := a.begun
  closed := a.closed

theorem block {level : Nat} {h : Handle} {n : Node} (hn : g.node? h = some n) (hv : h ∉ visited)
    (a : Account g (exits g h) (h :: visited) l v₁ order) :
    Account g [h] visited ((level, .block n) :: l) v₁ (h :: order) where
  visits := by rw [a.visits, List.reverse_cons, List.append_assoc]; rfl
  distinct := List.nodup_cons.mpr ⟨fun hh => a.fresh h hh List.mem_cons_self, a.distinct⟩
  fresh := by
    intro x hx
    rcases List.mem_cons.mp hx with rfl | hx
    · exact hv
    · exact fun hxv => a.fresh x hx (List.mem_cons_of_mem h hxv)
  blocks := by rw [listed_block, List.map_cons, List.map_cons, a.blocks, hn]
  count := by
    have hcount := a.count
    simp only [listed_block, referred_block, List.length_cons, List.length_nil, List.flatMap_cons,
      List.length_append]
    omega
  reached := by
    intro x hx
    rcases List.mem_cons.mp hx with rfl | hx
    · exact ⟨x, List.mem_cons_self, .refl⟩
    · obtain ⟨start, hs, hr⟩ := a.reached x hx
      exact ⟨h, List.mem_cons_self, .head (mem_exits_iff.mp hs) hr⟩
  begun := by
    intro x hx
    obtain rfl := List.mem_singleton.mp hx
    exact a.mono List.mem_cons_self
  closed := by
    intro x hx h' hh'
    rcases List.mem_cons.mp hx with rfl | hx
    · exact a.begun h' hh'
    · exact a.closed x hx h' hh'

end Account

theorem Listing.account {level : Nat} {target : Option Handle} {visited v' : List Handle}
    {lines : List (Nat × Entry)} (h : Listing g level target visited lines v') :
    ∃ order, Account g target.toList visited lines v' order := by
  induction h with
  | stop level visited => exact ⟨[], .nil g visited⟩
  | again level hn hv => exact ⟨[], .again hv⟩
  | @block level visited v₁ v₂ v₃ l₁ l₂ l₃ h n hn hv _ _ _ ihTrue ihFalse ihNext =>
    obtain ⟨o₁, a₁⟩ := ihTrue
    obtain ⟨o₂, a₂⟩ := ihFalse
    obtain ⟨o₃, a₃⟩ := ihNext
    have hall :=
      ((a₁.headed true level n.onTrue).append (a₂.headed false level n.onFalse)).append a₃
    rw [← exits_of_node hn] at hall
    exact ⟨_, hall.block hn hv⟩

theorem Listings.account {starts visited v' : List Handle} {lines : List (Nat × Entry)}
    (h : Listings g starts visited lines v') :
    ∃ order, Account g starts visited lines v' order := by
  induction h with
  | nil visited => exact ⟨[], .nil g visited⟩
  | cons first _ ih =>
    obtain ⟨o₁, a₁⟩ := first.account
    obtain ⟨o₂, a₂⟩ := ih
    exact ⟨_, a₁.append a₂⟩

/-! ## Listing ends -/

theorem Account.lt_size {starts before after order : List Handle} {lines : List (Nat × Entry)}
    (a : Account g starts before lines after order) : ∀ h ∈ order, h < g.size := by
  intro h hh
  have hmem : g.node? h ∈ (listed lines).map some := by
    rw [a.blocks]
    exact List.mem_map_of_mem hh
  obtain ⟨n, -, hn⟩ := List.mem_map.mp hmem
  exact lt_size_of_node (node_eq_ok_iff.mpr hn.symm)

theorem Account.seen {starts before after order : List Handle} {lines : List (Nat × Entry)}
    (a : Account g starts before lines after order) (hs : Seen g before) : Seen g after := by
  rw [a.visits]
  constructor
  · refine List.nodup_append.mpr ⟨List.nodup_reverse.mpr a.distinct, hs.distinct, ?_⟩
    rintro h hh h' hh' rfl
    exact a.fresh h (List.mem_reverse.mp hh) hh'
  · intro h hh
    rcases List.mem_append.mp hh with hh | hh
    · exact a.lt_size h (List.mem_reverse.mp hh)
    · exact hs.inside h hh

theorem Account.length_le {starts before after order : List Handle} {lines : List (Nat × Entry)}
    (a : Account g starts before lines after order) : before.length ≤ after.length := by
  rw [a.visits, List.length_append]
  omega

/-- Fewer and fewer blocks are left to be listed. -/
theorem exists_listing (hg : g.Linked) {visited : List Handle} (hs : Seen g visited) (level : Nat)
    {target : Option Handle} (htarget : ∀ h, target = some h → h < g.size) :
    ∃ lines after, Listing g level target visited lines after := by
  cases target with
  | none => exact ⟨_, _, .stop level visited⟩
  | some h =>
    have hh := htarget h rfl
    obtain ⟨n, hn⟩ := exists_node hh
    by_cases hv : h ∈ visited
    · exact ⟨_, _, .again level (node_eq_ok_iff.mp hn) hv⟩
    have hs₀ := hs.cons hh hv
    have hlen : visited.length + 1 ≤ g.size := hs₀.length_le
    obtain ⟨l₁, v₁, h₁⟩ := exists_listing hg hs₀ (level + 2) (hg.onTrue hn)
    obtain ⟨o₁, a₁⟩ := h₁.account
    have hs₁ := a₁.seen hs₀
    have hlen₁ : visited.length + 1 ≤ v₁.length := a₁.length_le
    obtain ⟨l₂, v₂, h₂⟩ := exists_listing hg hs₁ (level + 2) (hg.onFalse hn)
    obtain ⟨o₂, a₂⟩ := h₂.account
    have hlen₂ := a₂.length_le
    obtain ⟨l₃, v₃, h₃⟩ := exists_listing hg (a₂.seen hs₁) level (hg.next hn)
    exact ⟨_, _, .block (node_eq_ok_iff.mp hn) hv h₁ h₂ h₃⟩
termination_by g.size - visited.length

theorem exists_listings (hg : g.Linked) {starts visited : List Handle} (hs : Seen g visited)
    (hstarts : ∀ h ∈ starts, h < g.size) :
    ∃ lines after, Listings g starts visited lines after := by
  induction starts generalizing visited with
  | nil => exact ⟨_, _, .nil visited⟩
  | cons h starts ih =>
    obtain ⟨hh, hrest⟩ := List.forall_mem_cons.mp hstarts
    have htarget : ∀ x, some h = some x → x < g.size := fun x hx => Option.some.inj hx ▸ hh
    obtain ⟨l₁, v₁, h₁⟩ := exists_listing hg hs 0 htarget
    obtain ⟨o₁, a₁⟩ := h₁.account
    obtain ⟨l₂, v₂, h₂⟩ := ih (a₁.seen hs) hrest
    exact ⟨_, _, .cons h₁ h₂⟩

/-! ## Listing within a bound -/

theorem entries_nil (fuel : Nat) (visited : List Handle) : entries g fuel visited [] = [] := by
  cases fuel <;> rfl

theorem entries_branchOf {taken : Bool} {level fuel : Nat} {target : Option Handle}
    {visited after : List Handle} {lines : List (Nat × Entry)} {rest : List (Nat × Pending)}
    (h : entries g (lines.length + fuel) visited (chainOf (level + 2) target ++ rest) =
      lines ++ entries g fuel after rest) :
    entries g ((headed taken level target lines).length + fuel) visited
      (branchOf taken level target ++ rest) =
      headed taken level target lines ++ entries g fuel after rest := by
  cases target with
  | none => exact h
  | some x =>
    simp only [headed, branchOf, List.length_cons, List.cons_append, List.nil_append]
    rw [Nat.add_right_comm, entries]
    exact congrArg _ h

theorem Listing.entries {level : Nat} {target : Option Handle} {visited after : List Handle}
    {lines : List (Nat × Entry)} (h : Listing g level target visited lines after) (fuel : Nat)
    (rest : List (Nat × Pending)) :
    entries g (lines.length + fuel) visited (chainOf level target ++ rest) =
      lines ++ entries g fuel after rest := by
  induction h generalizing fuel rest with
  | stop level visited => simp [chainOf]
  | again level hn hv =>
    simp only [chainOf, List.length_cons, List.length_nil, List.cons_append, List.nil_append]
    rw [Nat.zero_add, Nat.add_comm, Outline.entries]
    simp [hn, hv]
  | @block level visited v₁ v₂ v₃ l₁ l₂ l₃ h n hn hv _ _ _ ihTrue ihFalse ihNext =>
    have hfuel :
        ((level, Entry.block n) ::
          (headed true level n.onTrue l₁ ++ headed false level n.onFalse l₂ ++ l₃)).length + fuel =
          (headed true level n.onTrue l₁).length +
          ((headed false level n.onFalse l₂).length + (l₃.length + fuel)) + 1 := by
      simp only [List.length_cons, List.length_append]
      omega
    have hpending : successors n level ++ rest =
        branchOf true level n.onTrue ++
        (branchOf false level n.onFalse ++ (chainOf level n.next ++ rest)) := by
      simp only [successors, List.append_assoc]
    rw [hfuel, chainOf, List.cons_append, List.nil_append, Outline.entries]
    simp only [hn, List.contains_eq_mem, hv, decide_false, Bool.false_eq_true, if_false, hpending]
    rw [entries_branchOf (ihTrue _ _), entries_branchOf (ihFalse _ _), ihNext]
    simp only [List.cons_append, List.append_assoc]

theorem Listings.entries {starts visited after : List Handle} {lines : List (Nat × Entry)}
    (h : Listings g starts visited lines after) (fuel : Nat) :
    entries g (lines.length + fuel) visited (starts.map fun x => (0, Pending.chain x)) = lines := by
  induction h generalizing fuel with
  | nil visited => exact entries_nil _ _
  | @cons x starts visited v₁ v₂ l₁ l₂ first _ ih =>
    have hfirst := first.entries (l₂.length + fuel) (starts.map fun x => (0, Pending.chain x))
    rw [List.length_append, Nat.add_assoc, List.map_cons]
    rw [chainOf, List.cons_append, List.nil_append, ih] at hfirst
    exact hfirst

/-! ## The length of an outline -/

def headings (lines : List (Nat × Entry)) : Nat :=
  lines.countP fun line => match line.2 with
    | .branch _ => true
    | _ => false

@[simp] theorem headings_append (l l' : List (Nat × Entry)) :
    headings (l ++ l') = headings l + headings l' :=
  List.countP_append

@[simp] theorem headings_block (level : Nat) (n : Node) (l : List (Nat × Entry)) :
    headings ((level, .block n) :: l) = headings l :=
  List.countP_cons_of_neg (by simp)

theorem length_eq (lines : List (Nat × Entry)) :
    lines.length = (listed lines).length + (referred lines).length + headings lines := by
  induction lines with
  | nil => rfl
  | cons line lines ih =>
    obtain ⟨level, entry⟩ := line
    cases entry <;> simp_all [listed, referred, headings] <;> omega

theorem headings_headed_le (taken : Bool) (level : Nat) (target : Option Handle)
    (lines : List (Nat × Entry)) :
    headings (headed taken level target lines) ≤ headings lines + 1 := by
  cases target <;> simp [headed, headings]

theorem Listing.headings_le {level : Nat} {target : Option Handle} {visited after : List Handle}
    {lines : List (Nat × Entry)} (h : Listing g level target visited lines after) :
    headings lines ≤ 2 * (listed lines).length := by
  induction h with
  | stop level visited => exact Nat.zero_le _
  | again level hn hv => exact Nat.zero_le _
  | @block level visited v₁ v₂ v₃ l₁ l₂ l₃ h n hn hv _ _ _ ihTrue ihFalse ihNext =>
    have htrue := headings_headed_le true level n.onTrue l₁
    have hfalse := headings_headed_le false level n.onFalse l₂
    simp only [headings_block, headings_append, listed_block, listed_append, listed_headed,
      List.length_cons, List.length_append]
    omega

theorem Listings.headings_le {starts visited after : List Handle} {lines : List (Nat × Entry)}
    (h : Listings g starts visited lines after) : headings lines ≤ 2 * (listed lines).length := by
  induction h with
  | nil visited => exact Nat.zero_le _
  | @cons x starts visited v₁ v₂ l₁ l₂ first _ ih =>
    have hfirst := first.headings_le
    rw [headings_append, listed_append, List.length_append]
    omega

theorem length_exits_le (g : Graph) (h : Handle) : (exits g h).length ≤ 3 := by
  unfold exits
  split
  · rename_i n _
    cases n.onTrue <;> cases n.onFalse <;> cases n.next <;> simp
  · simp

theorem length_flatMap_exits_le (g : Graph) (order : List Handle) :
    (order.flatMap (exits g)).length ≤ 3 * order.length := by
  induction order with
  | nil => simp
  | cons h order ih =>
    have hh := length_exits_le g h
    simp only [List.flatMap_cons, List.length_append, List.length_cons]
    omega

theorem Account.length_lines_le {starts before after order : List Handle}
    {lines : List (Nat × Entry)} (a : Account g starts before lines after order)
    (hheadings : headings lines ≤ 2 * (listed lines).length) :
    lines.length ≤ starts.length + 5 * order.length := by
  have hlisted : (listed lines).length = order.length := by
    simpa using congrArg List.length a.blocks
  have hlength := length_eq lines
  have hcount := a.count
  have hlinks := length_flatMap_exits_le g order
  omega

/-! ## Whole outlines -/

section Built

variable {records : List Record}

theorem lt_size_of_root {h : Handle} (hh : IsRoot g h) : h < g.size := by
  obtain ⟨n, hn, -⟩ := hh
  exact lt_size_of_node hn

/-- The bound is never met, so an outline is what listing gives without one. -/
theorem listings_ofGraph (hb : build records = .ok g) :
    ∃ order, Listings g (roots g) [] (ofGraph g) order.reverse ∧
      Account g (roots g) [] (ofGraph g) order.reverse order := by
  have hroots : ∀ h ∈ roots g, h < g.size :=
    fun h hh => lt_size_of_root ((mem_roots_iff hb h).mp hh)
  have hseen : Seen g [] := seen_nil g
  obtain ⟨lines, after, hl⟩ := exists_listings (linked_of_build hb) hseen hroots
  obtain ⟨order, a⟩ := hl.account
  obtain rfl : after = order.reverse := by simpa using a.visits
  have hlength := a.length_lines_le hl.headings_le
  have horder := (a.seen hseen).length_le
  rw [List.length_reverse] at horder
  obtain ⟨spare, hspare⟩ :=
    Nat.exists_eq_add_of_le (show lines.length ≤ (roots g).length + 5 * g.size by omega)
  have hlines : ofGraph g = lines := by
    simp only [ofGraph, hspare]
    exact hl.entries spare
  rw [hlines]
  exact ⟨order, hl, a⟩

theorem Account.mem_order_iff {lines : List (Nat × Entry)} {order : List Handle}
    (hb : build records = .ok g) (a : Account g (roots g) [] lines order.reverse order)
    (h : Handle) : h ∈ order ↔ Reachable g h := by
  constructor
  · intro hh
    obtain ⟨root, hroot, hreach⟩ := a.reached h hh
    exact ⟨root, (mem_roots_iff hb root).mp hroot, hreach⟩
  · rintro ⟨root, hroot, hreach⟩
    induction hreach with
    | refl => exact List.mem_reverse.mp (a.begun root ((mem_roots_iff hb root).mpr hroot))
    | tail _ hlink ih => exact List.mem_reverse.mp (a.closed _ ih _ (mem_exits_iff.mpr hlink))

theorem node?_inj (hb : build records = .ok g) {h h' : Handle} {n : Node} (hn : g.node? h = some n)
    (hn' : g.node? h' = some n) : h = h' :=
  Option.some.inj (((lookup_iff_node hb n.id h).mpr ⟨n, hn, rfl⟩).symm.trans
    ((lookup_iff_node hb n.id h').mpr ⟨n, hn', rfl⟩))

theorem Account.nodup_listed {starts before after order : List Handle} {lines : List (Nat × Entry)}
    (hb : build records = .ok g) (a : Account g starts before lines after order) :
    (listed lines).Nodup := by
  have hmap : ((listed lines).map some).Nodup := by
    rw [a.blocks]
    refine (List.nodup_map_iff_inj_on a.distinct).mpr fun h hh h' hh' heq => ?_
    obtain ⟨n, hn⟩ := exists_node (a.lt_size h hh)
    rw [node_eq_ok_iff] at hn
    exact node?_inj hb hn (heq ▸ hn)
  exact List.Nodup.of_map some hmap

end Built

/-- Listing the control flow of a graph ends. The outline has one line for each block that can be
reached from a root and none for any other, and together with the references there is one line
for each root and for each link that leaves such a block. -/
theorem outlines_show_blocks_once {records : List Record} (hb : build records = .ok g) :
    ∃ order : List Handle, Listings g (roots g) [] (ofGraph g) order.reverse ∧
      order.Nodup ∧ (∀ h, h ∈ order ↔ Reachable g h) ∧
      (listed (ofGraph g)).Nodup ∧ (listed (ofGraph g)).map some = order.map g.node? ∧
      (listed (ofGraph g)).length + (referred (ofGraph g)).length =
        (roots g).length + (order.flatMap (exits g)).length := by
  obtain ⟨order, hl, a⟩ := listings_ofGraph hb
  exact ⟨order, hl, a.distinct, a.mem_order_iff hb, a.nodup_listed hb, a.blocks, a.count⟩

/-- A loop, a block that two chains share, and one that no chain leads to. -/
def intertwined : List Record :=
  [{ id := "f", type := "functionStart", next := "j" },
   { id := "s", type := "start", next := "w" },
   { id := "w", type := "while", onTrue := "o", onFalse := "j", next := "w" },
   { id := "o", type := "output", next := "w" },
   { id := "j", type := "output" },
   { id := "u", type := "output", next := "j" }]

theorem outlines_show_blocks_once_intertwined :
    ∃ g, build intertwined = .ok g ∧ (listed (ofGraph g)).map (·.id) = ["s", "w", "o", "j", "f"] ∧
      (referred (ofGraph g)).map (·.id) = ["w", "w", "j"] ∧
      ∃ order : List Handle, (∀ h, h ∈ order ↔ Reachable g h) ∧ order.Nodup ∧ order.length = 5 ∧
        (order.flatMap (exits g)).length = 6 := by
  have hb : ∃ g, build intertwined = .ok g := ⟨_, rfl⟩
  obtain ⟨g, hg⟩ := hb
  obtain ⟨order, -, hdistinct, hmem, -, hblocks, hcount⟩ := outlines_show_blocks_once hg
  have hlines : (listed (ofGraph g)).map (·.id) = ["s", "w", "o", "j", "f"] ∧
      (referred (ofGraph g)).map (·.id) = ["w", "w", "j"] ∧ (roots g).length = 2 := by
    cases hg
    decide +kernel
  obtain ⟨hlisted, hreferred, hroots⟩ := hlines
  have hlen := congrArg List.length hlisted
  have hlen' := congrArg List.length hreferred
  have horder := congrArg List.length hblocks
  simp only [List.length_map, List.length_cons, List.length_nil] at hlen hlen' horder
  exact ⟨g, hg, hlisted, hreferred, order, hmem, hdistinct, by omega, by omega⟩

end Flowchart.Outline
