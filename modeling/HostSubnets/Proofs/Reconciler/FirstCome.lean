import HostSubnets.Proofs.Pool.Exhaustion
import HostSubnets.Proofs.Reconciler.Seeding

/-!
# First come, first served

What `sync` leaves behind is told by the list of nodes alone: a registered subnet belongs to the first node of the
list that declares it readably (`Declares`, `IsFirst`), whatever else the nodes declare. So a declaration that cannot
be read, or what is not registered in it, makes no difference to any node, and syncing again changes nothing
(`first_come_first_served`).
-/

namespace HostSubnets

open HostSubnets.Task

/-! ## Reservations that change nothing -/

namespace Pool

variable {p q : Pool} {o : String} {s : Cidr} {l l' : List Cidr}

theorem attempted_markOne_of_not_hosts (h : ¬ p.Hosts s) : attempted (markOne o) p s = p := by
  unfold attempted
  rcases markOne_cases o p s with ⟨hown, -⟩ | ⟨place, hplace, -, -⟩ | ⟨-, e, hm⟩
  · exact absurd (hosts_of_owner? hown) h
  · exact absurd (show p.Hosts s by simp [Hosts, hplace]) h
  · rw [hm]

theorem attempted_markOne_of_owned {x : String} (h : p.owner? s = some x) : attempted (markOne o) p s = p := by
  unfold attempted
  rcases markOne_cases o p s with ⟨-, hm⟩ | ⟨place, -, hfree, -⟩ | ⟨-, e, hm⟩
  · rw [hm]
  · rw [h] at hfree
    cases hfree
  · rw [hm]

theorem mark_filter_hosts (p : Pool) (o : String) (l : List Cidr) :
    (p.mark o (l.filter fun s => p.Hosts s)).2 = (p.mark o l).2 := by
  rw [mark, mark, attemptAll_snd, attemptAll_snd]
  induction l generalizing p with
  | nil => rfl
  | cons s rest ih =>
    have hsame : (fun t => decide ((attempted (markOne o) p s).Hosts t)) = fun t => decide (p.Hosts t) :=
      funext fun t => decide_eq_decide.2 (hosts_attempted_markOne o p s t)
    have hrest := ih (attempted (markOne o) p s)
    rw [hsame] at hrest
    rw [List.filter_cons, List.foldl_cons]
    by_cases hs : p.Hosts s
    · rw [if_pos (by simpa using hs), List.foldl_cons, hrest]
    · rw [attempted_markOne_of_not_hosts hs] at hrest ⊢
      rw [if_neg (by simpa using hs), hrest]

theorem mark_of_owned (h : ∀ s ∈ l, p.Hosts s → p.owner? s ≠ none) : (p.mark o l).2 = p := by
  rw [mark, attemptAll_snd]
  induction l with
  | nil => rfl
  | cons s rest ih =>
    obtain ⟨hs, hrest⟩ := List.forall_mem_cons.1 h
    have hfirst : attempted (markOne o) p s = p := by
      by_cases hhosts : p.Hosts s
      · obtain ⟨x, hx⟩ := Option.ne_none_iff_exists'.1 (hs hhosts)
        exact attempted_markOne_of_owned hx
      · exact attempted_markOne_of_not_hosts hhosts
    rw [List.foldl_cons, hfirst, ih hrest]

theorem seeded_append (p : Pool) (before rest : List (String × List Cidr)) :
    p.seeded (before ++ rest) = (p.seeded before).seeded rest := List.foldl_append

theorem hosts_seeded (p : Pool) (entries : List (String × List Cidr)) (s : Cidr) :
    (p.seeded entries).Hosts s ↔ p.Hosts s := by
  unfold seeded
  induction entries generalizing p with
  | nil => rfl
  | cons e rest ih => rw [List.foldl_cons, ih, hosts_mark]

theorem seeded_nil_entry (p : Pool) (before rest : List (String × List Cidr)) (o : String) :
    p.seeded (before ++ (o, []) :: rest) = p.seeded (before ++ rest) := by
  rw [seeded_append, seeded_append]
  rfl

theorem seeded_congr (before rest : List (String × List Cidr))
    (h : l.filter (fun s => p.Hosts s) = l'.filter fun s => p.Hosts s) :
    p.seeded (before ++ (o, l) :: rest) = p.seeded (before ++ (o, l') :: rest) := by
  have hsame : (fun s => decide ((p.seeded before).Hosts s)) = fun s => decide (p.Hosts s) :=
    funext fun s => decide_eq_decide.2 (hosts_seeded p before s)
  have hmark : ((p.seeded before).mark o l).2 = ((p.seeded before).mark o l').2 := by
    rw [← mark_filter_hosts, ← mark_filter_hosts _ _ l', hsame, h]
  rw [seeded_append, seeded_append]
  exact congrArg (fun q : Pool => q.seeded rest) hmark

/-- **Reserving the same lists again changes nothing**: each of their registered entries has an owner. -/
theorem seeded_seeded (p : Pool) (entries : List (String × List Cidr)) :
    (p.seeded entries).seeded entries = p.seeded entries := by
  have howned : ∀ e ∈ entries, ∀ s ∈ e.2, (p.seeded entries).Hosts s → (p.seeded entries).owner? s ≠ none := by
    intro e he s hs hhosts
    rw [owner?_seeded, if_pos ((hosts_seeded p entries s).1 hhosts), ne_eq, Option.or_eq_none_iff, not_and]
    intro _ hnone
    rw [Option.map_eq_none_iff, List.find?_eq_none] at hnone
    exact hnone e he (by simpa using hs)
  generalize p.seeded entries = q at howned
  unfold seeded
  induction entries with
  | nil => rfl
  | cons e rest ih =>
    obtain ⟨hfirst, hrest⟩ := List.forall_mem_cons.1 howned
    rw [List.foldl_cons, mark_of_owned hfirst, ih hrest]

end Pool

/-! ## What nodes declare -/

namespace Reconciler

variable {σ : Type} {ops : StoreOps σ} {r : Reconciler} {n : Node} {t : Cidr} {which : PoolName} {nodes : List Node}

/-- A node declares a subnet of a pool: readably, and its labels let it have one there. -/
def Declares (r : Reconciler) (n : Node) (t : Cidr) : PoolName → Prop
  | .cluster => n.isUnmanaged = false ∧ ∃ subnets, n.subnets? r.network.name = .ok (some subnets) ∧ t ∈ subnets
  | .overlay => n.isUnmanaged = true ∧ r.servesInOverlay n = true ∧ n.overlaySubnet? = .ok (some t)

def IsFirst (r : Reconciler) (nodes : List Node) (t : Cidr) (which : PoolName) (n : Node) : Prop :=
  ∃ before rest, nodes = before ++ n :: rest ∧ r.Declares n t which ∧ ∀ m ∈ before, ¬ r.Declares m t which

/-- The annotation that counts for a node cannot be read. -/
def Unreadable (r : Reconciler) (n : Node) : Prop :=
  (n.isUnmanaged = false ∧ ∃ e, n.subnets? r.network.name = .error e) ∨
    (n.isUnmanaged = true ∧ ∃ e, n.overlaySubnet? = .error e)

theorem mem_seedsIn_iff : t ∈ r.seedsIn n which ↔ r.Declares n t which := by
  unfold Declares
  cases which with
  | cluster =>
    cases hn : n.isUnmanaged with
    | true => simp [seedsIn, seeds, hn]
    | false =>
      rw [seedsIn, seeds, hn, if_neg Bool.false_ne_true, declaredSubnets]
      split
      · rename_i subnets hread
        simp [hread]
      · rename_i hnone
        simp only [List.not_mem_nil, true_and, false_iff]
        rintro ⟨subnets, hread, -⟩
        exact hnone subnets hread
  | overlay =>
    cases hn : n.isUnmanaged with
    | false => simp [seedsIn, hn]
    | true =>
      cases hserved : r.servesInOverlay n with
      | false => simp [seedsIn, hn, hserved]
      | true =>
        rw [seedsIn, hn, hserved, Bool.and_self, if_pos rfl, declaredOverlay]
        split
        · rename_i subnet hread
          simp [hread, eq_comm]
        · rename_i hnone
          simp only [List.not_mem_nil, true_and, false_iff]
          exact hnone t

theorem seedsIn_of_unreadable (h : r.Unreadable n) (which : PoolName) : r.seedsIn n which = [] := by
  apply List.eq_nil_iff_forall_not_mem.2
  intro t ht
  have hdeclares := mem_seedsIn_iff.1 ht
  rcases h with ⟨hn, e, he⟩ | ⟨hn, e, he⟩
  · cases which with
    | cluster =>
      obtain ⟨-, subnets, hread, -⟩ := hdeclares
      rw [he] at hread
      cases hread
    | overlay =>
      rw [hdeclares.1] at hn
      cases hn
  · cases which with
    | cluster =>
      rw [hdeclares.1] at hn
      cases hn
    | overlay =>
      have hread := hdeclares.2.2
      rw [he] at hread
      cases hread

theorem find?_seedsIn_iff : (nodes.find? fun n => t ∈ r.seedsIn n which) = some n ↔ r.IsFirst nodes t which n := by
  simp only [List.find?_eq_some_iff_append, decide_eq_true_eq, Bool.not_eq_true', decide_eq_false_iff_not,
    mem_seedsIn_iff, IsFirst]
  constructor
  · rintro ⟨hn, before, rest, hsplit, hbefore⟩
    exact ⟨before, rest, hsplit, hn, hbefore⟩
  · rintro ⟨before, rest, hsplit, hn, hbefore⟩
    exact ⟨hn, before, rest, hsplit, hbefore⟩

/-! ## What a sync leaves -/

section Sync

variable {s : σ} {w : World σ} (hw : w.Fresh s) (hper : r.network.perNode = true) (nodes : List Node)
include hper

theorem pool_sync_congr {nodes nodes' : List Node} (which : PoolName)
    (h : (w.pool which).seeded (nodes'.map fun n => (n.key, r.seedsIn n which)) =
      (w.pool which).seeded (nodes.map fun n => (n.key, r.seedsIn n which))) :
    ((r.sync nodes').runAlone ops w).2.pool which = ((r.sync nodes).runAlone ops w).2.pool which := by
  rw [(sync_runAlone r hper nodes' w).1, (sync_runAlone r hper nodes w).1, h]

theorem sync_sync (w : World σ) : (r.sync nodes).runAlone ops ((r.sync nodes).runAlone ops w).2 =
    ((), ((r.sync nodes).runAlone ops w).2) := by
  refine Prod.ext rfl ?_
  rw [sync_eq r hper, sync_eq r hper, recordAllocated_world, recordAllocated_world]
  split
  · rw [seedAll_world, seedAll_world, Pool.seeded_seeded, Pool.seeded_seeded]
  · rw [seedAll_world, seedAll_world, Pool.seeded_seeded, Pool.seeded_seeded]
    rfl

include hw

theorem World.Fresh.mem_allocated_sync_iff (which : PoolName) (t : Cidr) (x : String) :
    t ∈ (((r.sync nodes).runAlone ops w).2.pool which).allocated x ↔
      (w.pool which).Hosts t ∧ ∃ n, r.IsFirst nodes t which n ∧ n.key = x := by
  rw [(hw.coherent_sync r hper nodes which).mirrored, hw.owner?_sync r hper nodes which t]
  simp only [← find?_seedsIn_iff]
  split
  · rename_i hhosts
    rw [Option.map_eq_some_iff, and_iff_right hhosts]
  · rename_i hnot
    simp [hnot]

theorem World.Fresh.free_sync {which : PoolName} {t : Cidr} (hhosts : (w.pool which).Hosts t)
    (hnone : ∀ n ∈ nodes, ¬ r.Declares n t which) :
    (((r.sync nodes).runAlone ops w).2.pool which).Free t := by
  have hfind : (nodes.find? fun n => t ∈ r.seedsIn n which) = none := by
    rw [List.find?_eq_none]
    intro n hn
    simpa [mem_seedsIn_iff] using hnone n hn
  refine ⟨?_, ?_⟩
  · rw [(sync_runAlone r hper nodes w).1, Pool.hosts_seeded]
    exact hhosts
  · rw [hw.owner?_sync r hper nodes which t, if_pos hhosts, hfind]
    rfl

/-- **First come, first served, and nothing else counts.** After a sync a registered subnet of either pool belongs to
the first node in the list that declares it, and to nobody if there is none. Leaving out a node whose declaration
cannot be read changes no pool, nor does putting another declaration with the same registered subnets in its place.
Syncing the same nodes again changes nothing at all. -/
theorem first_come_first_served :
    let after := ((r.sync nodes).runAlone ops w).2
    (∀ which t x, t ∈ (after.pool which).allocated x ↔
      (w.pool which).Hosts t ∧ ∃ n, r.IsFirst nodes t which n ∧ n.key = x) ∧
    (∀ which t, (w.pool which).Hosts t → (∀ n ∈ nodes, ¬ r.Declares n t which) → (after.pool which).Free t) ∧
    (∀ before n rest, nodes = before ++ n :: rest → r.Unreadable n →
      ∀ which, ((r.sync (before ++ rest)).runAlone ops w).2.pool which = after.pool which) ∧
    (∀ before n n' rest, nodes = before ++ n :: rest → n'.key = n.key →
      (∀ which, (r.seedsIn n' which).filter (fun t => (w.pool which).Hosts t) =
        (r.seedsIn n which).filter fun t => (w.pool which).Hosts t) →
      ∀ which, ((r.sync (before ++ n' :: rest)).runAlone ops w).2.pool which = after.pool which) ∧
    (r.sync nodes).runAlone ops after = ((), after) := by
  intro after
  refine ⟨fun which t x => hw.mem_allocated_sync_iff hper nodes which t x,
    fun which t hhosts hnone => hw.free_sync hper nodes hhosts hnone, ?_, ?_, sync_sync hper nodes w⟩
  · rintro before n rest rfl hunreadable which
    refine pool_sync_congr hper which ?_
    rw [List.map_append, List.map_append, List.map_cons, seedsIn_of_unreadable hunreadable, Pool.seeded_nil_entry]
  · rintro before n n' rest rfl hkey hsame which
    refine pool_sync_congr hper which ?_
    rw [List.map_append, List.map_append, List.map_cons, List.map_cons, hkey]
    exact Pool.seeded_congr _ _ (hsame which)

end Sync

/-- A range for managed nodes and one for the hybrid overlay. -/
def bothPools : Reconciler :=
  ⟨.ofRanges [⟨⟨.v4, 170393600, 16, by decide, by decide⟩, 18, by decide⟩],
    ⟨true, [⟨⟨.v4, 170459136, 17, by decide, by decide⟩, 18, by decide⟩]⟩, .standard⟩

def declaring (name : String) (subnets : List Cidr) : Node :=
  { Node.named name with annotations := some (TextMap.setSubnets Network.defaultName subnets .empty) }

theorem key_declaring (name : String) (subnets : List Cidr) : (declaring name subnets).key = name := rfl

def declaringOverlay (name : String) (subnet : Cidr) : Node :=
  { Node.named name with
    annotations := some (TextMap.setOverlaySubnet subnet .empty)
    labels := some ((SortedMap.empty.insert Node.unmanagedLabel "").insert Node.systemLabel Node.overlaySystem) }

def scrawling (name : String) : Node :=
  { Node.named name with annotations := some (SortedMap.empty.insert AnnotationKey.subnets.text "a scrawl") }

theorem key_scrawling (name : String) : (scrawling name).key = name := rfl

/-- Five nodes: the first one declares a subnet of the other pool as well, the third one what the first declares, the
fifth one what the fourth does, and the second one cannot be read. -/
theorem bothPools_synced :
    let first : Cidr := ⟨.v4, 170393600, 18, by decide, by decide⟩
    let second : Cidr := ⟨.v4, 170409984, 18, by decide, by decide⟩
    let third : Cidr := ⟨.v4, 170426368, 18, by decide, by decide⟩
    let fourth : Cidr := ⟨.v4, 170442752, 18, by decide, by decide⟩
    let beyond : Cidr := ⟨.v4, 170459136, 18, by decide, by decide⟩
    let rest := [declaring "b" [second, third], declaringOverlay "d" beyond, declaringOverlay "e" beyond]
    let nodes := declaring "a" [beyond, first, second] :: scrawling "c" :: rest
    let w := (bothPools.start.runAlone Records.ops (World.start .empty)).2
    let after := ((bothPools.sync nodes).runAlone Records.ops w).2
    after.cluster.allocated "a" = [first, second] ∧ after.cluster.allocated "b" = [third] ∧
      after.overlay.allocated "d" = [beyond] ∧ after.overlay.allocated "e" = [] ∧
        (∃ n, bothPools.IsFirst nodes second .cluster n ∧ n.key = "a") ∧ after.cluster.Free fourth ∧
          (∀ which, ((bothPools.sync (declaring "a" [beyond, first, second] :: rest)).runAlone
            Records.ops w).2.pool which = after.pool which) ∧
          (∀ which, ((bothPools.sync (declaring "a" [first, second] :: scrawling "c" :: rest)).runAlone
            Records.ops w).2.pool which = after.pool which) ∧
          (bothPools.sync nodes).runAlone Records.ops after = ((), after) := by
  intro first second third fourth beyond rest nodes w after
  have hw : w.Fresh .empty := fresh_runAlone_start Records.ops bothPools .empty
  have hper : bothPools.network.perNode = true := rfl
  obtain ⟨hheld, hfree, hdropped, hreplaced, hagain⟩ :=
    @first_come_first_served Records Records.ops bothPools .empty w hw hper nodes
  have hlists : after.cluster.allocated "a" = [first, second] ∧ after.cluster.allocated "b" = [third] ∧
      after.overlay.allocated "d" = [beyond] ∧ after.overlay.allocated "e" = [] := by decide +kernel
  obtain ⟨ha, hb, hd, he⟩ := hlists
  refine ⟨ha, hb, hd, he, ?_, hfree .cluster fourth (by decide +kernel) ?_, ?_, ?_, hagain⟩
  · have hsecond : second ∈ (after.pool .cluster).allocated "a" := by
      show second ∈ after.cluster.allocated "a"
      rw [ha]
      decide
    exact ((hheld .cluster second "a").1 hsecond).2
  · have hnone : ∀ n ∈ nodes, fourth ∉ bothPools.seedsIn n .cluster := by decide +kernel
    exact fun n hn hdeclares => hnone n hn (mem_seedsIn_iff.2 hdeclares)
  · have hunreadable : bothPools.Unreadable (scrawling "c") :=
      Or.inl ⟨by decide +kernel, .undecodable .subnets, by decide +kernel⟩
    exact hdropped [declaring "a" [beyond, first, second]] (scrawling "c") rest rfl hunreadable
  · have hsame : ∀ which,
        (bothPools.seedsIn (declaring "a" [first, second]) which).filter (fun t => (w.pool which).Hosts t) =
          (bothPools.seedsIn (declaring "a" [beyond, first, second]) which).filter
            fun t => (w.pool which).Hosts t := by
      intro which
      cases which <;> decide +kernel
    have hkey := (key_declaring "a" [first, second]).trans (key_declaring "a" [beyond, first, second]).symm
    exact hreplaced [] _ (declaring "a" [first, second]) (scrawling "c" :: rest) rfl hkey hsame

end Reconciler

end HostSubnets
