import NetStack.Lib.Ownership
import NetStack.System.DriverMoves

/-!
# Whose memory is whose

The kernel as one system over one heap: the clients of the allocator, `map_page`, the process table with the
processes on their stacks, the network driver, and the device, which may also go on writing to memory it was given by an
earlier initialisation.  Each acts in whole calls, in any order.

`State.ledger` lists every page that is somebody's with its owner.  `memory_partition` says that each page of the heap is
free or in it once, none of them is in the kernel's image, and what `net_queues` points to is the driver's.
`memory_isolated` says that a party that does nothing finds its memory as it left it, whatever the others do.
-/

namespace NetStack

open ByteMem Transition Ownership

namespace Isolation

/-! ## The system -/

/-- The driver with the heap, the process table, the live allocations, the page tables with the calls of `map_page`,
the pages the driver has taken, and whether its last initialisation returned `0`. -/
structure State where
  net : NetState
  procs : Slot → Table.Process
  live : List (List ℕ)
  root : ℕ
  tables : List ℕ
  log : List MapCall
  taken : List ℕ
  up : Bool

def State.tableSys (s : State) : PtSys := ⟨s.net.heap, s.live, s.root, s.tables, s.log⟩

/-- The driver's pages once `net_queues` is as in `net`: it gives none back. -/
def takes (taken : List ℕ) (net : NetState) : List ℕ := (net.driverPages.filter (· ∉ taken)).dedup ++ taken

inductive Event
  /-- `proc_create`, the scheduler, a process that writes to its stack, a client of the allocator -/
  | process (e : Table.Event)
  | map (c : MapCall)
  /-- an entry point of the driver, or the device -/
  | driver (c : NetCall)
  /-- a device writes to memory it was given earlier -/
  | dma

/-- The calls of the driver that take no page.  Polls and packets come after an initialisation that returned `0`. -/
def Permitted (s : State) : NetCall → Prop
  | .init => False
  | .send _ _ | .pollRx _ => s.up = true
  | .tx _ length => ∃ h', MemAllocReturns s.net.heap (txSize length) (h', 0)
  | .device => True

/-- **A step.**  Calls of `map_page` are outside the gigapages and get the pages they need; the size of a packet does
not wrap, and the device does not change the id of a used element between the driver's two fetches. -/
inductive Step (forkret : ℕ) : State → Event → State → Prop
  | process {s : State} {e : Table.Event} {t : Table.Sys}
      (h : Table.Step forkret ⟨s.procs, s.net.heap, s.live⟩ e t) : Step forkret s (.process e)
        { s with net := { s.net with heap := t.heap }, procs := t.procs, live := t.live }
  | map {s : State} {c : MapCall} {t : PtSys} (h : TableStep (fun _ => True) s.tableSys (.map c) t) :
      Step forkret s (.map c)
        { s with net := { s.net with heap := t.heap }, tables := t.tables, log := t.log }
  | init {s : State} {limit : ℕ} {net : NetState} {ok : Bool} (h : virtMmioNetVirtqInit limit s.net = some (net, ok)) :
      Step forkret s (.driver .init) { s with net := net, taken := takes s.taken net, up := ok }
  | call {s : State} {c : NetCall} {net : NetState} (h : NetStep s.net c net) (hok : Permitted s c) :
      Step forkret s (.driver c) { s with net := net }
  | tx {s : State} {limit data length packet : ℕ} {h' : Heap} {net : NetState} {ls : List Concurrent.Turn}
      {c k : Option ℕ} (hup : s.up = true) (hlength : length + 54 < 2 ^ 32)
      (halloc : memAlloc limit s.net.heap (txSize length) = some (h', packet)) (hpacket : packet ≠ 0)
      (hrun : Run (txAny.StepUnder Refetched TxAgain)
        (virtMmioNetTx packet data length, ⟨{ s.net with heap := h' }, none, none⟩) ls (.ret true, ⟨net, c, k⟩)) :
      Step forkret s (.driver (.tx data length))
        { s with net := net, taken := blockPages packet (pageCount (txSize length)) ++ s.taken }
  | dma {s : State} {m : Mem} (hm : ∀ x, m x ≠ s.net.heap.mem x → pageFloor x ∈ s.taken) :
      Step forkret s .dma { s with net := { s.net with heap := { s.net.heap with mem := m } } }

/-- Right after `proc_init`: the page tables at one of their starts, the driver not initialised. -/
inductive Start : State → Prop
  | mk {pt : PtSys} (procs : Slot → Table.Process) (h : TableStart pt) :
      Start ⟨.boot pt.heap, Table.procInit procs, pt.live, pt.root, pt.tables, pt.log, [], false⟩

/-! ## Parties -/

inductive Party
  | clients
  | stack (k : Slot)
  | tables
  | driver
  deriving DecidableEq

/-- Who owns which page. -/
def State.ledger (s : State) : List (Party × ℕ) :=
  s.live.flatten.map (Prod.mk .clients) ++ (tablePages s.root s.tables).map (Prod.mk .tables) ++
    ((List.finRange nproc).filter (Table.Used s.procs ·)).map (fun k => (.stack k, (s.procs k).stack)) ++
      s.taken.map (Prod.mk .driver)

/-- The memory of a party. -/
def State.own (s : State) (p : Party) : Set ℕ := {x | (p, pageFloor x) ∈ s.ledger}

/-- Where the kernel's text and data lie, `boot_page_table` apart.  Only the addresses: the variables there are fields
of `State`, and stores to them do not show in `mem`. -/
def State.image (s : State) : Set ℕ := {x | pageFloor x ∉ s.net.heap.pages ∧ pageFloor x ≠ s.root}

/-- The events in which a party writes to its memory, or takes or gives back some of it. -/
def Event.By : Event → Party → Prop
  | .process (.push k _ _), p => p = .stack k
  | .process (.client _), p => p = .clients
  | .process _, _ => False
  | .map _, p => p = .tables
  | .driver _, p | .dma, p => p = .driver

section

variable {s : State} {p : Party} {a : ℕ}

lemma mem_ledger : (p, a) ∈ s.ledger ↔ (p = .clients ∧ a ∈ s.live.flatten) ∨ (p = .tables ∧ a ∈ tablePages s.root s.tables) ∨
    (∃ k, p = .stack k ∧ Table.Used s.procs k ∧ (s.procs k).stack = a) ∨ (p = .driver ∧ a ∈ s.taken) := by
  simp only [State.ledger, List.mem_append, List.mem_map, Prod.mk.injEq, List.mem_filter, List.mem_finRange, true_and,
    decide_eq_true_eq, or_assoc]
  constructor
  · rintro (⟨b, hb, rfl, rfl⟩ | ⟨b, hb, rfl, rfl⟩ | ⟨k, hk, rfl, rfl⟩ | ⟨b, hb, rfl, rfl⟩)
    · exact .inl ⟨rfl, hb⟩
    · exact .inr (.inl ⟨rfl, hb⟩)
    · exact .inr (.inr (.inl ⟨k, rfl, hk, rfl⟩))
    · exact .inr (.inr (.inr ⟨rfl, hb⟩))
  · rintro (⟨rfl, ha⟩ | ⟨rfl, ha⟩ | ⟨k, rfl, hk, rfl⟩ | ⟨rfl, ha⟩)
    · exact .inl ⟨a, ha, rfl, rfl⟩
    · exact .inr (.inl ⟨a, ha, rfl, rfl⟩)
    · exact .inr (.inr (.inl ⟨k, hk, rfl, rfl⟩))
    · exact .inr (.inr (.inr ⟨a, ha, rfl, rfl⟩))

end

/-! ## The invariant -/

/-- Every page of the heap is accounted for, `net_queues` points into the driver's pages, and the TX queue is as an
initialisation that returned `0` leaves it. -/
structure Inv (s : State) : Prop where
  sound : ∃ l T, s.tableSys.Sound l (s.tableSys.rootPages ++ (Table.stackPages s.procs ++ s.taken)) T
  areas : s.net.driverPages ⊆ s.taken
  up : s.up = true → s.net.Up

/-- The pages of the heap among which those of a party are. -/
def State.pagesOf (s : State) : Party → List ℕ
  | .clients => s.live.flatten
  | .stack _ => Table.stackPages s.procs
  | .tables => s.tableSys.rootPages ++ s.tables
  | .driver => s.taken

/-- **One party acts**, or nobody: the rest of the kernel is as it was. -/
structure Acts (s s' : State) (q : Option Party) : Prop where
  inv : Inv s'
  pages : s'.net.heap.pages = s.net.heap.pages
  keeps : ∀ p, some p ≠ q → ∀ x ∈ s.own p, x ∈ s'.own p ∧ s'.net.heap.mem x = s.net.heap.mem x

section

variable {s s' : State} {p : Party} {a x : ℕ} {mine others : List ℕ}

lemma rootPages_congr {pt pt' : PtSys} (hroot : pt'.root = pt.root) (hpages : pt'.heap.pages = pt.heap.pages) :
    pt'.rootPages = pt.rootPages := by
  rw [PtSys.rootPages, PtSys.rootPages, hroot, hpages]

lemma mem_rootPages {pt : PtSys} : a ∈ pt.rootPages ↔ a = pt.root ∧ pt.root ∈ pt.heap.pages := by
  rw [PtSys.rootPages]
  split_ifs with hin <;> simp [hin]

lemma ledger_page (h : (p, a) ∈ s.ledger) : a ∈ s.pagesOf p ∨ a ∉ s.net.heap.pages := by
  rcases mem_ledger.mp h with ⟨rfl, ha⟩ | ⟨rfl, ha⟩ | ⟨k, rfl, hk, rfl⟩ | ⟨rfl, ha⟩
  · exact .inl ha
  · rcases List.mem_cons.mp ha with rfl | ha
    · by_cases hin : s.root ∈ s.net.heap.pages
      · exact .inl (List.mem_append_left _ (mem_rootPages.mpr ⟨rfl, hin⟩))
      · exact .inr hin
    · exact .inl (List.mem_append_right _ ha)
  · exact .inl (Table.mem_stackPages_of_used hk)
  · exact .inl ha

/-- **What moves leave alone.** -/
lemma own_kept (hm : s.net.heap.Moves s'.net.heap mine others) (hsub : s.pagesOf p ⊆ others)
    (hledger : ∀ a, (p, a) ∈ s.ledger → (p, a) ∈ s'.ledger) (hx : x ∈ s.own p) :
    x ∈ s'.own p ∧ s'.net.heap.mem x = s.net.heap.mem x :=
  ⟨hledger _ hx, hm.mem x ((ledger_page hx).imp_left fun h => hsub h)⟩

/-- The page tables among others who act. -/
lemma sound_of_moves {pt : PtSys} {l own own' : List ℕ} {T : List ℕ → Option ℕ} {h' : Heap} {live : List (List ℕ)}
    (h : pt.Sound l own T) (hm : pt.heap.Moves h' mine others)
    (hperm : (live.flatten ++ own' ++ pt.tables).Perm (mine ++ others)) (hroot : pt.root ∈ own → pt.root ∈ own')
    (hsub : pt.rootPages ++ pt.tables ⊆ others) :
    ∃ l' T, PtSys.Sound { pt with heap := h', live := live } l' own' T := by
  obtain ⟨l', hs'⟩ := hm.split
  have hag : ∀ x, pageFloor x ∈ tablePages pt.root pt.tables → h'.mem x = pt.heap.mem x := by
    intro x hx
    refine hm.mem x ?_
    rcases List.mem_cons.mp hx with hx | hx
    · by_cases hin : pt.root ∈ pt.heap.pages
      · exact .inl (hsub (List.mem_append_left _ (mem_rootPages.mpr ⟨hx, hin⟩)))
      · rw [hx]
        exact .inr hin
    · exact .inl (hsub (List.mem_append_right _ hx))
  have hread : ∀ k < 512, readPte h'.mem pt.root k = readPte pt.heap.mem pt.root k := fun k hk =>
    readPte_congr h.split.aligned hk fun x hx => hag x (hx ▸ List.mem_cons_self)
  have hplace : pt.root ∈ own' ∨ pt.root ∉ h'.pages := by
    rw [hm.pages]
    exact h.place.imp_left hroot
  refine ⟨l', T, ⟨hs'.of_perm hperm, h.split.aligned, h.split.lt, hplace.imp_left (List.mem_append_right _)⟩, hplace,
    ?_, ⟨(hread 2 (by decide)).trans h.giga.1, (hread 258 (by decide)).trans h.giga.2⟩, ?_⟩
  · exact h.tree.congr (fun t ht => (h.split.table_low t ht).1) hag
  · rw [hm.pages]
    exact h.image

/-- The pages that are somebody's, with those of the party that acts in front. -/
lemma Inv.split_for (h : Inv s) (mine others : List ℕ) (hperm : (mine ++ others).Perm
    (s.live.flatten ++ (s.tableSys.rootPages ++ (Table.stackPages s.procs ++ s.taken)) ++ s.tables)) :
    ∃ l, s.net.heap.Split l (mine ++ others) := by
  obtain ⟨l, T, hsound⟩ := h.sound
  exact ⟨l, hsound.split.split.of_perm hperm⟩

lemma Inv.stack_split (h : Inv s) : ∃ l, s.net.heap.Split l
    (Table.stackPages s.procs ++ (s.live.flatten ++ (s.tableSys.rootPages ++ s.taken) ++ s.tables)) := by
  refine h.split_for _ _ ?_
  rw [List.perm_iff_count]
  intro a
  simp only [List.count_append]
  omega

lemma Inv.driver_split (h : Inv s) : ∃ l, s.net.heap.Split l
    (s.taken ++ (s.live.flatten ++ (s.tableSys.rootPages ++ Table.stackPages s.procs) ++ s.tables)) := by
  refine h.split_for _ _ ?_
  rw [List.perm_iff_count]
  intro a
  simp only [List.count_append]
  omega

/-- Owners keep their pages when processes stay and nothing is given back. -/
lemma ledger_kept (hroot : s'.root = s.root) (htables : s.tables ⊆ s'.tables) (hlive : p = .clients → s'.live = s.live)
    (hprocs : Table.Kept s.procs s'.procs) (htaken : s.taken ⊆ s'.taken) (h : (p, a) ∈ s.ledger) : (p, a) ∈ s'.ledger := by
  rw [mem_ledger] at h ⊢
  rcases h with ⟨rfl, ha⟩ | ⟨rfl, ha⟩ | ⟨k, rfl, hk, rfl⟩ | ⟨rfl, ha⟩
  · exact .inl ⟨rfl, by rwa [hlive rfl]⟩
  · refine .inr (.inl ⟨rfl, ?_⟩)
    rw [hroot]
    rcases List.mem_cons.mp ha with ha | ha
    · exact List.mem_cons.mpr (.inl ha)
    · exact List.mem_cons_of_mem _ (htables ha)
  · exact .inr (.inr (.inl ⟨k, rfl, hprocs k hk⟩))
  · exact .inr (.inr (.inr ⟨rfl, htaken ha⟩))

/-- The account after a step that is not `map_page`'s. -/
lemma inv_of_moves (h : Inv s) (hm : s.net.heap.Moves s'.net.heap mine others)
    (hperm : (s'.live.flatten ++ (s.tableSys.rootPages ++ (Table.stackPages s'.procs ++ s'.taken)) ++ s.tables).Perm
      (mine ++ others))
    (htab : s.tableSys.rootPages ++ s.tables ⊆ others) (hsame : s'.root = s.root ∧ s'.tables = s.tables ∧ s'.log = s.log)
    (hareas : s'.net.driverPages ⊆ s'.taken) (hup : s'.up = true → s'.net.Up) : Inv s' := by
  obtain ⟨hroot, htables, hlog⟩ := hsame
  refine ⟨?_, hareas, hup⟩
  obtain ⟨l, T, hsound⟩ := h.sound
  have hroots : s'.tableSys.rootPages = s.tableSys.rootPages := rootPages_congr hroot hm.pages
  have hkeep : s.root ∈ s.tableSys.rootPages ++ (Table.stackPages s.procs ++ s.taken) →
      s.root ∈ s.tableSys.rootPages ++ (Table.stackPages s'.procs ++ s'.taken) := by
    intro hin
    refine List.mem_append_left _ (mem_rootPages.mpr ⟨rfl, ?_⟩)
    exact hsound.split.split.perm.mem_iff.mp (List.mem_append_right l (List.mem_append_left _
      (List.mem_append_right _ hin)))
  obtain ⟨l', T', hsound'⟩ := sound_of_moves hsound hm hperm hkeep htab
  have hsys : s'.tableSys = { s.tableSys with heap := s'.net.heap, live := s'.live } := by
    rw [State.tableSys, State.tableSys, hroot, htables, hlog]
  rw [hroots, hsys]
  exact ⟨l', T', hsound'⟩

/-- **The rule for a step that is not `map_page`'s**: the pages of the parties that do not act are among the others'. -/
lemma acts_of_moves {q : Option Party} (h : Inv s) (hm : s.net.heap.Moves s'.net.heap mine others)
    (hperm : (s'.live.flatten ++ (s.tableSys.rootPages ++ (Table.stackPages s'.procs ++ s'.taken)) ++ s.tables).Perm
      (mine ++ others))
    (hsub : ∀ p, some p ≠ q → s.pagesOf p ⊆ others) (htab : some .tables ≠ q)
    (hsame : s'.root = s.root ∧ s'.tables = s.tables ∧ s'.log = s.log) (hlive : some .clients ≠ q → s'.live = s.live)
    (hprocs : Table.Kept s.procs s'.procs) (htaken : s.taken ⊆ s'.taken)
    (hareas : s'.net.driverPages ⊆ s'.taken) (hup : s'.up = true → s'.net.Up) : Acts s s' q := by
  refine ⟨inv_of_moves h hm hperm (hsub .tables htab) hsame hareas hup, hm.pages, fun p hp x hx => ?_⟩
  refine own_kept hm (hsub p hp) (fun a ha => ?_) hx
  refine ledger_kept hsame.1 (by rw [hsame.2.1]; exact fun _ h => h) (fun hpc => hlive ?_) hprocs htaken ha
  rwa [← hpc]

/-! ## No page has two owners -/

lemma ledger_pages (s : State) : s.ledger.map Prod.snd =
    s.live.flatten ++ tablePages s.root s.tables ++ Table.stackPages s.procs ++ s.taken := by
  simp [State.ledger, Table.stackPages, List.map_map, Function.comp_def]

/-- What is owned is a page of the heap, or `boot_page_table`. -/
lemma Inv.ledger_place (h : Inv s) (ha : (p, a) ∈ s.ledger) : a ∈ s.net.heap.pages ∨ a = s.root := by
  obtain ⟨l, T, hsound⟩ := h.sound
  have hmem : a ∈ s.ledger.map Prod.snd := List.mem_map_of_mem (f := Prod.snd) ha
  rw [ledger_pages, tablePages] at hmem
  simp only [List.mem_append, List.mem_cons] at hmem
  have hin : ∀ b, b ∈ s.live.flatten ∨ b ∈ Table.stackPages s.procs ∨ b ∈ s.taken ∨ b ∈ s.tables → b ∈ s.net.heap.pages := by
    intro b hb
    refine hsound.split.split.perm.mem_iff.mp ?_
    simp only [State.tableSys, List.mem_append]
    tauto
  have := hin a
  tauto

/-- **Each page has one owner.** -/
lemma Inv.ledger_nodup (h : Inv s) : (s.ledger.map Prod.snd).Nodup := by
  obtain ⟨l, T, hsound⟩ := h.sound
  have hnd := (List.nodup_append.mp hsound.split.split.nodup).2.1
  rw [ledger_pages, tablePages]
  by_cases hin : s.root ∈ s.net.heap.pages
  · have hroots : s.tableSys.rootPages = [s.root] := if_pos hin
    rw [hroots] at hnd
    refine (List.Perm.nodup_iff ?_).mp hnd
    rw [List.perm_iff_count]
    intro a
    simp only [State.tableSys, List.count_append, List.count_cons, List.count_nil]
    omega
  · have hroots : s.tableSys.rootPages = [] := if_neg hin
    rw [hroots, List.nil_append] at hnd
    have hcons : (s.root :: (s.tableSys.live.flatten ++ (Table.stackPages s.procs ++ s.taken) ++ s.tableSys.tables)).Nodup := by
      refine List.nodup_cons.mpr ⟨fun hmem => hin ?_, hnd⟩
      refine hsound.split.split.perm.mem_iff.mp (List.mem_append_right l ?_)
      rw [hroots]
      exact hmem
    refine (List.Perm.nodup_iff ?_).mp hcons
    rw [List.perm_iff_count]
    intro a
    simp only [State.tableSys, List.count_append, List.count_cons]
    omega

/-- **Nothing belongs to two parties.** -/
lemma Inv.own_unique (h : Inv s) {q : Party} (hp : x ∈ s.own p) (hq : x ∈ s.own q) : p = q :=
  (Prod.mk.inj (List.inj_on_of_nodup_map h.ledger_nodup hp hq rfl)).1

/-- Nor to the kernel's image. -/
lemma Inv.own_image (h : Inv s) (hp : x ∈ s.own p) : x ∉ s.image := by
  rintro ⟨hout, hne⟩
  exact (h.ledger_place hp).elim hout hne

end

/-! ## One step -/

section Steps

variable {forkret : ℕ} {s : State} {p : Party}

/-- The pages of the others when the clients act, processes, or the driver. -/
lemma pagesOf_subset : (p ≠ .clients → s.pagesOf p ⊆ s.tableSys.rootPages ++ (Table.stackPages s.procs ++ s.taken) ++ s.tables) ∧
    ((∀ k, p ≠ .stack k) → s.pagesOf p ⊆ s.live.flatten ++ (s.tableSys.rootPages ++ s.taken) ++ s.tables) ∧
    (p ≠ .driver → s.pagesOf p ⊆ s.live.flatten ++ (s.tableSys.rootPages ++ Table.stackPages s.procs) ++ s.tables) := by
  refine ⟨fun hp a ha => ?_, fun hp a ha => ?_, fun hp a ha => ?_⟩ <;>
    cases p <;> simp only [State.pagesOf, List.mem_append] at ha ⊢ <;> tauto

/-- Contexts and states are in nobody's memory. -/
lemma Inv.update (h : Inv s) {procs : Slot → Table.Process}
    (hsame : Table.stackPages procs = Table.stackPages s.procs) (hkept : Table.Kept s.procs procs) :
    Acts s { s with procs := procs } none := by
  obtain ⟨l, hs⟩ := h.split_for [] (s.live.flatten ++ (s.tableSys.rootPages ++
    (Table.stackPages s.procs ++ s.taken)) ++ s.tables) (.refl _)
  refine acts_of_moves h (.refl hs) ?_ (fun p _ => ?_) (by simp) ⟨rfl, rfl, rfl⟩ (fun _ => rfl) hkept (fun _ ha => ha)
    h.areas h.up
  · rw [hsame]
    exact .refl _
  · intro a ha
    cases p <;> simp only [State.pagesOf, List.mem_append] at ha ⊢ <;> tauto

/-- **`proc_create`.** -/
lemma Inv.create (h : Inv s) {limit : ℕ} {r : Request} {procs : Slot → Table.Process} {h' : Heap} {ret : Option Slot}
    (hcall : Table.procCreate limit forkret s.procs s.net.heap r = some (procs, h', ret)) :
    Acts s { s with net := { s.net with heap := h' }, procs := procs } none := by
  obtain ⟨l, hs⟩ := h.stack_split
  obtain ⟨hkept, new, hm, hperm⟩ := Table.procCreate_moves hs hcall
  refine acts_of_moves h hm ?_ (fun p _ => ?_) (by simp) ⟨rfl, rfl, rfl⟩ (fun _ => rfl) hkept (fun _ ha => ha)
    h.areas fun hup => (h.up hup).of_tx rfl
  · rw [List.perm_iff_count]
    intro a
    have hcount := hperm.count_eq a
    simp only [List.count_append] at hcount ⊢
    omega
  · intro a ha
    cases p <;> simp only [State.pagesOf, List.mem_append] at ha ⊢ <;> tauto

/-- **A client of the allocator.** -/
lemma Inv.client (h : Inv s) {op : AllocOp} {t : AllocSys} (hop : AllocStep ⟨s.net.heap, s.live⟩ op t) :
    Acts s { s with net := { s.net with heap := t.heap }, live := t.live } (some .clients) := by
  obtain ⟨l, hs⟩ := h.split_for (s.live.flatten)
    (s.tableSys.rootPages ++ (Table.stackPages s.procs ++ s.taken) ++ s.tables)
    (.of_eq (List.append_assoc ..).symm)
  refine acts_of_moves h (hop.moves hs) ?_ (fun p hp => pagesOf_subset.1 fun hpc => hp (by rw [hpc])) (by simp)
    ⟨rfl, rfl, rfl⟩ (fun hne => absurd rfl hne) (fun _ hk => ⟨hk, rfl⟩) (fun _ ha => ha) h.areas
    fun hup => (h.up hup).of_tx rfl
  exact .of_eq (List.append_assoc ..)

/-- **What the driver does in its own pages.** -/
lemma Inv.driver (h : Inv s) {net : NetState} (hin : StaysIn s.taken s.net net) {up : Bool} (hup : up = true → net.Up) :
    Acts s { s with net := net, up := up } (some .driver) := by
  obtain ⟨l, hs⟩ := h.driver_split
  refine acts_of_moves h (hin.moves hs) ?_ (fun p hp => pagesOf_subset.2.2 fun hpd => hp (by rw [hpd])) (by simp)
    ⟨rfl, rfl, rfl⟩ (fun _ => rfl) (fun _ hk => ⟨hk, rfl⟩) (fun _ ha => ha) ?_ hup
  · rw [List.perm_iff_count]
    intro a
    simp only [List.count_append]
    omega
  · rw [hin.driverPages]
    exact h.areas

/-- **A process writes to its stack.** -/
lemma Inv.push (h : Inv s) {k : Slot} {x : ℕ} {v : UInt8} (hused : Table.Used s.procs k)
    (hx : pageFloor x = (s.procs k).stack) :
    Acts s { s with net := { s.net with heap := { s.net.heap with mem := write s.net.heap.mem x v } } }
      (some (.stack k)) := by
  have hown : x ∈ s.own (.stack k) := mem_ledger.mpr (.inr (.inr (.inl ⟨k, rfl, hused, hx.symm⟩)))
  obtain ⟨l, hs⟩ := h.stack_split
  have hm := hs.moves_write (m := write s.net.heap.mem x v) fun y hy => by
    have hyx : y = x := by
      by_contra hne
      exact hy (write_of_ne _ v hne)
    rw [hyx, hx]
    exact Table.mem_stackPages_of_used hused
  refine ⟨inv_of_moves h hm ?_ ?_ ⟨rfl, rfl, rfl⟩ h.areas fun hup => (h.up hup).of_tx rfl, rfl, fun p hp y hy => ⟨?_, ?_⟩⟩
  · rw [List.perm_iff_count]
    intro a
    simp only [List.count_append]
    omega
  · exact (pagesOf_subset (p := .tables)).2.1 (by simp)
  · exact hy
  · refine write_of_ne _ v fun hyx => hp ?_
    rw [h.own_unique hy (hyx ▸ hown)]

/-- **`map_page`.** -/
lemma Inv.map (h : Inv s) {c : MapCall} {t : PtSys} (hstep : TableStep (fun _ => True) s.tableSys (.map c) t) :
    Acts s { s with net := { s.net with heap := t.heap }, tables := t.tables, log := t.log } (some .tables) := by
  obtain ⟨l, T, hsound⟩ := h.sound
  cases hstep with
  | @map _ h' got hva hout hpa hflags _ hret hgot =>
      obtain ⟨limit, hrun⟩ := hret
      obtain ⟨l', T', hs', ht', hg⟩ :=
        mapPage_spec hsound.split hsound.tree (not_inGigapage.mp hout) hpa hflags hrun hgot
      have hpages : h'.pages = s.net.heap.pages := hg.pages
      have hroots : PtSys.rootPages ⟨h', s.live, s.root, s.tables ++ got, c :: s.log⟩ = s.tableSys.rootPages :=
        rootPages_congr rfl hpages
      have hplace : s.root ∈ s.tableSys.rootPages ++ (Table.stackPages s.procs ++ s.taken) ∨ s.root ∉ h'.pages := by
        rw [hpages]
        exact hsound.place
      have himage : baseAddr < s.root ∧ ∀ p ∈ h'.pages, baseAddr < p := by
        rw [hpages]
        exact hsound.image
      have hinv : Inv { s with net := { s.net with heap := h' }, tables := s.tables ++ got, log := c :: s.log } := by
        refine ⟨⟨l', T', ?_⟩, h.areas, fun hup => (h.up hup).of_tx rfl⟩
        show PtSys.Sound _ l' (PtSys.rootPages ⟨h', s.live, s.root, s.tables ++ got, c :: s.log⟩ ++ _) T'
        rw [hroots]
        exact ⟨hs', hplace, ht', Gigapages.grown hsound.giga hg, himage⟩
      refine ⟨hinv, hpages, fun p hp x hx => ?_⟩
      have hx' : x ∈ State.own { s with net := { s.net with heap := h' }, tables := s.tables ++ got, log := c :: s.log } p := by
        exact ledger_kept (s := s) rfl (List.subset_append_left ..) (fun _ => rfl) (fun _ hk => ⟨hk, rfl⟩)
          (fun _ ha => ha) hx
      -- what is written is a table afterwards, and has one owner
      refine ⟨hx', hg.mem x fun htable => hp ?_⟩
      have hmine : x ∈ State.own { s with net := { s.net with heap := h' }, tables := s.tables ++ got, log := c :: s.log }
          .tables := mem_ledger.mpr (.inr (.inl ⟨rfl, htable⟩))
      rw [hinv.own_unique hx' hmine]

/-- **`virt_mmio_net_virtq_init`.** -/
lemma Inv.init (h : Inv s) {limit : ℕ} {net : NetState} {ok : Bool} (hrun : virtMmioNetVirtqInit limit s.net = some (net, ok)) :
    Acts s { s with net := net, taken := takes s.taken net, up := ok } (some .driver) := by
  obtain ⟨l, hs⟩ := h.driver_split
  obtain ⟨new, hm, hnew, hareas⟩ := virtMmioNetVirtqInit_moves hs h.areas hrun
  obtain ⟨l', hs'⟩ := hm.split
  have hnd := (List.nodup_append.mp (List.nodup_append.mp hs'.nodup).2.1).1
  have hperm : (takes s.taken net).Perm (new ++ s.taken) := by
    refine List.Perm.append_right _ ((List.perm_ext_iff_of_nodup (List.nodup_dedup _) ?_).mpr fun a => ?_)
    · exact (List.nodup_append.mp hnd).1
    · rw [List.mem_dedup, List.mem_filter, decide_eq_true_eq]
      constructor
      · rintro ⟨ha, hout⟩
        exact (List.mem_append.mp (hareas ha)).resolve_right hout
      · exact fun ha => ⟨hnew ha, fun hin => (List.nodup_append.mp hnd).2.2 a ha a hin rfl⟩
  refine acts_of_moves h (hm.of_perm hperm) ?_ (fun p hp => pagesOf_subset.2.2 fun hpd => hp (by rw [hpd])) (by simp)
    ⟨rfl, rfl, rfl⟩ (fun _ => rfl) (fun _ hk => ⟨hk, rfl⟩) (List.subset_append_right ..)
    (fun a ha => hperm.mem_iff.mpr (hareas ha)) fun hup => ?_
  · rw [List.perm_iff_count]
    intro a
    simp only [List.count_append]
    omega
  · subst hup
    exact .of_init hs hrun

/-- **`virt_mmio_net_tx`** with memory for its packet. -/
lemma Inv.tx (h : Inv s) {limit data length packet : ℕ} {h' : Heap} {net : NetState} {ls : List Concurrent.Turn}
    {c k : Option ℕ} (hup : s.up = true) (hlength : length + 54 < 2 ^ 32)
    (halloc : memAlloc limit s.net.heap (txSize length) = some (h', packet)) (hpacket : packet ≠ 0)
    (hrun : Run (txAny.StepUnder Refetched TxAgain)
      (virtMmioNetTx packet data length, ⟨{ s.net with heap := h' }, none, none⟩) ls (.ret true, ⟨net, c, k⟩)) :
    Acts s { s with net := net, taken := blockPages packet (pageCount (txSize length)) ++ s.taken } (some .driver) := by
  obtain ⟨l, hs⟩ := h.driver_split
  rcases hs.moves_alloc ⟨limit, halloc⟩ with ⟨h0, -⟩ | ⟨-, hm⟩
  · exact absurd h0 hpacket
  obtain ⟨l', hs'⟩ := hm.split
  have hsize : txSize length = length + 54 := Nat.mod_eq_of_lt hlength
  have hcount := pageCount_eq (hsize ▸ hlength)
  have hal := (hs'.block_bounds (a := packet) (n := pageCount (txSize length)) (by omega)
    fun p hp => List.mem_append_left _ (List.mem_append_left _ hp)).1
  have hin : ∀ x, packet ≤ x → x < packet + 54 + length →
      pageFloor x ∈ blockPages packet (pageCount (txSize length)) ++ s.taken := fun x hlo hhi =>
    List.mem_append_left _ (pageFloor_mem_blockPages hal hlo (by omega))
  have hareas : s.net.driverPages ⊆ blockPages packet (pageCount (txSize length)) ++ s.taken := fun a ha =>
    List.mem_append_right _ (h.areas ha)
  obtain ⟨hstays, hnet⟩ := virtMmioNetTx_staysIn (s := { s.net with heap := h' }) hs' hareas
    ((h.up hup).of_tx rfl) hin hrun
  refine acts_of_moves h (hm.trans (hstays.moves hs')) ?_ (fun p hp => pagesOf_subset.2.2 fun hpd => hp (by rw [hpd]))
    (by simp) ⟨rfl, rfl, rfl⟩ (fun _ => rfl) (fun _ hk => ⟨hk, rfl⟩) (List.subset_append_right ..) ?_ fun _ => hnet
  · rw [List.perm_iff_count]
    intro a
    simp only [List.count_append]
    omega
  · rw [hstays.driverPages]
    exact hareas

/-- **The other calls of the driver, and the device.** -/
lemma Inv.call (h : Inv s) {c : NetCall} {net : NetState} (hstep : NetStep s.net c net) (hok : Permitted s c) :
    Acts s { s with net := net } (some .driver) := by
  obtain ⟨l, hs⟩ := h.driver_split
  cases hstep with
  | init => exact absurd hok id
  | send hrun =>
      obtain ⟨hin, hup⟩ := virtMmioNetSend_staysIn hs h.areas (h.up hok) hrun
      exact h.driver hin fun _ => hup
  | @txFailed limit _ data length h' halloc =>
      rcases hs.moves_alloc ⟨limit, halloc⟩ with ⟨-, rfl⟩ | ⟨hne, -⟩
      · have hsame : StaysIn s.taken s.net (s.net.puts "Failed to allocate memory for TX packet.\n") :=
          ⟨rfl, fun _ hx => absurd rfl hx, fun _ => ⟨rfl, rfl⟩⟩
        exact h.driver hsame fun hup => (h.up hup).of_tx rfl
      · exact absurd rfl hne
  | @tx limit _ _ data length packet h' ls c k halloc hp hrun =>
      obtain ⟨h'', hfail⟩ := hok
      exact absurd (Prod.mk.inj (MemAllocReturns.unique ⟨limit, halloc⟩ hfail)).2 hp
  | pollRx hrun =>
      obtain ⟨hin, hup⟩ := pollRx_staysIn hs h.areas (h.up hok) hrun
      exact h.driver hin fun _ => hup
  | device henv => exact h.driver ((StaysIn.refl ..).havoc hs h.areas henv) fun hup => (h.up hup).havoc henv

/-- **One step**: at most one party acts, and the event says which. -/
lemma Step.acts {s' : State} {e : Event} (hstep : Step forkret s e s') (h : Inv s) :
    ∃ q, (∀ p, q = some p → e.By p) ∧ Acts s s' q := by
  cases hstep with
  | process hstep =>
      cases hstep with
      | create hret => exact ⟨none, by simp, h.create hret⟩
      | setState hused hst =>
          exact ⟨none, by simp, h.update (Table.stackPages_update hused hst rfl) (Table.kept_update hst fun _ => rfl)⟩
      | swtch hused =>
          exact ⟨none, by simp, h.update (Table.stackPages_update hused hused rfl) (Table.kept_update hused fun _ => rfl)⟩
      | @push k x v hused hx => exact ⟨some (.stack k), by rintro p ⟨⟩; rfl, h.push hused hx⟩
      | client hop => exact ⟨some .clients, by rintro p ⟨⟩; rfl, h.client hop⟩
  | map hstep => exact ⟨some .tables, by rintro p ⟨⟩; rfl, h.map hstep⟩
  | init hrun => exact ⟨some .driver, by rintro p ⟨⟩; rfl, h.init hrun⟩
  | call hstep hok => exact ⟨some .driver, by rintro p ⟨⟩; rfl, h.call hstep hok⟩
  | tx hup hlength halloc hpacket hrun =>
      exact ⟨some .driver, by rintro p ⟨⟩; rfl, h.tx hup hlength halloc hpacket hrun⟩
  | dma hm =>
      exact ⟨some .driver, by rintro p ⟨⟩; rfl, h.driver ((StaysIn.refl ..).write hm) fun hup => (h.up hup).of_tx rfl⟩

end Steps

/-! ## Runs -/

/-- What a party writes, where that is all it does to its memory. -/
def put (p : Party) : Event → ℕ → Option UInt8
  | .process (.push k y v), x => if p = .stack k ∧ x = y then some v else none
  | _, _ => none

/-- Events in which `p` writes to its stack at most. -/
def Quiet (p : Party) (e : Event) : Prop := e.By p → ∃ k, p = .stack k

section

variable {forkret : ℕ} {s s₀ : State}

/-- A stack is written by its process only. -/
lemma by_stack {e : Event} {k : Slot} (h : e.By (.stack k)) : ∃ x v, e = .process (.push k x v) := by
  cases e with
  | process e =>
      cases e with
      | push j x v =>
          obtain rfl : k = j := Party.stack.inj h
          exact ⟨x, v, rfl⟩
      | client op => exact absurd h (by simp [Event.By])
      | _ => exact absurd h (by simp [Event.By])
  | _ => exact absurd h (by simp [Event.By])

/-- **Every party owns its memory.** -/
lemma owner (forkret : ℕ) (p : Party) :
    Owner (Step forkret) Inv (Quiet p) (fun s => s.own p) (fun s => s.net.heap.mem) (put p) where
  inv _ _ _ hstep h := by
    obtain ⟨_, _, hacts⟩ := hstep.acts h
    exact hacts.inv
  keeps s e s' hstep h hquiet x hx := by
    by_cases hby : e.By p
    · obtain ⟨k, rfl⟩ := hquiet hby
      obtain ⟨y, v, rfl⟩ := by_stack hby
      cases hstep with
      | process hstep =>
          cases hstep with
          | push hused hy =>
              refine ⟨hx, ?_⟩
              by_cases hxy : x = y
              · subst hxy
                simp [put, write]
              · simp [put, hxy, write_of_ne _ v hxy]
    · obtain ⟨q, hq, hacts⟩ := hstep.acts h
      have hput : put p e x = none := by
        cases e with
        | process e =>
            cases e with
            | push k y v => exact if_neg fun hp => hby hp.1
            | _ => rfl
        | _ => rfl
      rw [hput]
      exact hacts.keeps p (fun hqp => hby (hq p hqp.symm)) x hx

/-- Initially no process exists and the driver has nothing. -/
lemma Start.inv (h : Start s) : Inv s := by
  cases h with
  | @mk pt procs hpt =>
      obtain ⟨l, T, hsound⟩ := hpt.sound_rootPages
      have hstacks : Table.stackPages (Table.procInit procs) = [] := by
        rw [List.eq_nil_iff_forall_not_mem]
        intro a ha
        obtain ⟨k, hk, -⟩ := Table.mem_stackPages.mp ha
        exact hk rfl
      refine ⟨⟨l, T, ?_⟩, ?_, by simp⟩
      · rw [hstacks, List.append_nil, List.append_nil]
        exact hsound
      · rw [show (NetState.boot pt.heap).driverPages = [] from driverPages_null fun _ => ⟨rfl, rfl⟩]
        exact List.nil_subset _

lemma inv_of_run {es : List Event} (hstart : Start s₀) (hrun : Run (Step forkret) s₀ es s) :
    Inv s ∧ s.net.heap.pages = s₀.net.heap.pages := by
  refine hrun.invariant (P := fun s => Inv s ∧ s.net.heap.pages = s₀.net.heap.pages) ?_ ⟨hstart.inv, rfl⟩
  rintro s e s' hstep ⟨hinv, hpages⟩
  obtain ⟨_, _, hacts⟩ := hstep.acts hinv
  exact ⟨hacts.inv, hacts.pages.trans hpages⟩

end

/-- While a page is free, the first process can be created, and it can write to its stack. -/
lemma Inv.first_process {s : State} (h : Inv s) (forkret : ℕ) {n : ℕ} (hfree : n + 1 ≤ s.net.heap.freePageCount)
    (hnone : ∀ k, ¬ Table.Used s.procs k) (r : Request) (v : UInt8) : ∃ s' s'' k x,
      Run (Step forkret) s [.process (.create r)] s' ∧ Table.Used s'.procs k ∧ pageFloor x = (s'.procs k).stack ∧
        Run (Step forkret) s' [.process (.push k x v)] s'' ∧ x ∈ s''.own (.stack k) ∧ s''.net.heap.mem x = v ∧
          n ≤ s''.net.heap.freePageCount := by
  obtain ⟨k, hk⟩ : ∃ k, Table.findUnused s.procs = some k := by
    cases hfind : Table.findUnused s.procs with
    | none => exact absurd (Table.findUnused_none.mp hfind ⟨0, by decide⟩) (hnone _)
    | some k => exact ⟨k, rfl⟩
  obtain ⟨l, T, hsound⟩ := h.sound
  obtain ⟨h', a, halloc, ha, hcount⟩ := hsound.split.split.allocPage hfree 0
  have hcall : Table.procCreate 0 forkret s.procs s.net.heap r =
      some (Function.update s.procs k (Table.setup forkret k a r (s.procs k)), h', some k) := by
    have halloc' : memAlloc 0 s.net.heap Table.stackSize = some (h', a) := halloc
    simp [Table.procCreate, hk, halloc', ha]
  have hsetup := Table.setup_isSetup forkret k a r (s.procs k)
  have hal : a % 4096 = 0 := (hsound.split.split.takePage ⟨0, halloc⟩ ha).1
  have hused : Table.Used (Function.update s.procs k (Table.setup forkret k a r (s.procs k))) k := by
    rw [Table.Used, Function.update_self, hsetup.state]
    simp
  have hstack : pageFloor a = (Function.update s.procs k (Table.setup forkret k a r (s.procs k)) k).stack := by
    rw [Function.update_self, hsetup.stack]
    simp only [pageFloor, pageSize_eq]
    omega
  exact ⟨_, _, k, a, .cons (.process (.create hcall)) (.nil _), hused, hstack,
    .cons (.process (.push hused hstack)) (.nil _), mem_ledger.mpr (.inr (.inr (.inl ⟨k, rfl, hused, hstack.symm⟩))),
    write_same .., hcount⟩

/-- While two pages are free, `map_page` can be called. -/
lemma Inv.maps {s : State} (h : Inv s) (forkret : ℕ) (hfree : 2 ≤ s.net.heap.freePageCount) {c : MapCall}
    (hva : c.va < 2 ^ 64) (hout : ¬ InGigapage c.va) (hpa : c.pa < 2 ^ 64) (hflags : c.flags < 2 ^ 64) :
    ∃ s', Run (Step forkret) s [.map c] s' := by
  obtain ⟨l, T, hsound⟩ := h.sound
  obtain ⟨h', got, hrun, hgot⟩ := mapPage_returns hsound.split hsound.tree (not_inGigapage.mp hout) hfree 0
  exact ⟨_, .cons (.map (.map hva hout hpa hflags trivial ⟨0, hrun⟩ hgot)) (.nil _)⟩

/-- `boot_page_table` with five pages of heap. -/
lemma exists_start : ∃ s, Start s ∧ 5 ≤ s.net.heap.freePageCount ∧ ∀ k, ¬ Table.Used s.procs k := by
  have hstart := TableStart.boot fivePageLayout (fun _ => 0) false
  refine ⟨_, .mk (fun _ => ⟨0, .unused, 0, .zero, none, fun _ => 0⟩) hstart, ?_, fun k hk => hk rfl⟩
  show 5 ≤ (fivePageLayout.startHeap (fun _ => 0) false).freePageCount
  rw [fivePageLayout_count]

/-- **Each page has one owner.**  In every state that is reached, each page of the heap is on the free list or belongs to
one party, never both; parties have no memory in common, nor with the kernel's image; and the rings and buffers
`net_queues` points to are the driver's. -/
theorem memory_partition (forkret : ℕ) (s₀ s : State) (es : List Event) (hstart : Start s₀)
    (hrun : Run (Step forkret) s₀ es s) :
    (∃ l, s.net.heap.Free l ∧ ∀ a ∈ s₀.net.heap.pages,
      (a ∈ l ∧ ∀ p, (p, a) ∉ s.ledger) ∨ (a ∉ l ∧ ∃! p, (p, a) ∈ s.ledger)) ∧
    (∀ p q x, x ∈ s.own p → x ∈ s.own q → p = q) ∧ (∀ p x, x ∈ s.own p → x ∉ s.image) ∧
    ∀ a ∈ s.net.driverPages, (.driver, a) ∈ s.ledger := by
  obtain ⟨h, hpages⟩ := inv_of_run hstart hrun
  refine ⟨?_, fun p q x hp hq => h.own_unique hp hq, fun p x hp => h.own_image hp,
    fun a ha => mem_ledger.mpr (.inr (.inr (.inr ⟨rfl, h.areas ha⟩)))⟩
  obtain ⟨l, T, hsound⟩ := h.sound
  refine ⟨l, hsound.split.split.free, fun a ha => ?_⟩
  rw [← hpages] at ha
  have howned : (∃ p, (p, a) ∈ s.ledger) ↔ a ∉ l := by
    constructor
    · rintro ⟨p, hp⟩
      refine hsound.split.split.notMem_free ?_
      have hpage := (ledger_page hp).resolve_right fun hout => hout ha
      cases p <;> simp only [State.pagesOf, State.tableSys, List.mem_append] at hpage ⊢ <;> tauto
    · intro hl
      have hmem := (List.mem_append.mp (hsound.split.split.perm.mem_iff.mpr ha)).resolve_left hl
      have hpage : a ∈ s.ledger.map Prod.snd := by
        rw [ledger_pages, tablePages]
        simp only [State.tableSys, List.mem_append, List.mem_cons] at hmem ⊢
        rcases hmem with (hmem | hmem | hmem | hmem) | hmem
        · exact .inl (.inl (.inl hmem))
        · exact .inl (.inl (.inr (.inl (mem_rootPages.mp hmem).1)))
        · exact .inl (.inr hmem)
        · exact .inr hmem
        · exact .inl (.inl (.inr (.inr hmem)))
      obtain ⟨⟨p, b⟩, hp, rfl⟩ := List.mem_map.mp hpage
      exact ⟨p, hp⟩
  by_cases hl : a ∈ l
  · exact .inl ⟨hl, fun p hp => howned.mp ⟨p, hp⟩ hl⟩
  · obtain ⟨p, hp⟩ := howned.mpr hl
    exact .inr ⟨hl, p, hp, fun q hq => (Prod.mk.inj (List.inj_on_of_nodup_map h.ledger_nodup hq hp rfl)).1⟩

/-- After the first process has been created. -/
theorem memory_partition_first_process : ∃ s₀ s, Run (Step 0x80200000) s₀ [.process (.create ⟨some 0x80201000, none⟩)] s ∧
    ∀ p q x, x ∈ s.own p → x ∈ s.own q → p = q := by
  obtain ⟨s₀, hstart, hfree, hnone⟩ := exists_start
  obtain ⟨s, -, -, -, hrun, -⟩ := hstart.inv.first_process (n := 4) 0x80200000 hfree hnone ⟨some 0x80201000, none⟩ 0
  exact ⟨s₀, s, hrun, (memory_partition 0x80200000 s₀ s _ hstart hrun).2.1⟩

/-- **Nobody touches what is not his.**  From any state that is reached on, whatever happens in whatever order: a party
that takes no part finds every byte of its memory as it left it, and still owns it. -/
theorem memory_isolated (forkret : ℕ) (s₀ s s' : State) (es es' : List Event) (hstart : Start s₀)
    (hrun : Run (Step forkret) s₀ es s) (hrun' : Run (Step forkret) s es' s') (p : Party) (hidle : ∀ e ∈ es', ¬ e.By p) :
    ∀ x ∈ s.own p, x ∈ s'.own p ∧ s'.net.heap.mem x = s.net.heap.mem x := by
  intro x hx
  refine (owner forkret p).untouched hrun' (inv_of_run hstart hrun).1 (fun e he hby => absurd hby (hidle e he)) ?_ hx
  intro e he y
  cases e with
  | process e =>
      cases e with
      | push k z v => exact if_neg fun hp => hidle _ he hp.1
      | _ => rfl
  | _ => rfl

/-- A process writes to its stack, and `map_page` takes pages and fills them. -/
theorem memory_isolated_stack : ∃ s s' k x, Run (Step 0x80200000) s [.map uartCall] s' ∧ x ∈ s.own (.stack k) ∧
    s.net.heap.mem x = 7 ∧ ∀ y ∈ s.own (.stack k), s'.net.heap.mem y = s.net.heap.mem y := by
  obtain ⟨s₀, hstart, hfree, hnone⟩ := exists_start
  obtain ⟨s₁, s, k, x, hrun, -, -, hrun', hx, hv, hcount⟩ :=
    hstart.inv.first_process (n := 4) 0x80200000 hfree hnone ⟨some 0x80201000, none⟩ 7
  have hall := hrun.append hrun'
  obtain ⟨s', hmap⟩ := (inv_of_run hstart hall).1.maps 0x80200000 (by omega) (c := uartCall) (by decide) (by decide)
    (by decide) (by decide)
  refine ⟨s, s', k, x, hmap, hx, hv, fun y hy => ?_⟩
  exact (memory_isolated 0x80200000 s₀ s s' _ _ hstart hall hmap (.stack k) (by simp [Event.By]) y hy).2

end Isolation

end NetStack
