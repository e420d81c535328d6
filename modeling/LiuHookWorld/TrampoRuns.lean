/-
# Runs of the trampoline managers

Several managers share one memory: those of `enter`, of `exit` and of the hubs.  Their callers
allocate, write and free; each call holds the lock of its manager from the search on, so that
a run is a list of calls, with clocks that need not agree.
-/
import Mathlib.Data.List.Pairwise
import LiuHookWorld.Trampo

namespace ShadowHook

open ByteMemory

/-! ## Pieces and memory -/

/-- The `n` numbers from `a` on and the `k` from `b` on do not overlap. -/
def Separate (a n b k : ℕ) : Prop := a + n ≤ b ∨ b + k ≤ a

theorem Separate.symm {a n b k : ℕ} (h : Separate a n b k) : Separate b k a n := Or.symm h

/-- Parts of what lies apart lie apart. -/
theorem Separate.mono {a n b k a' n' b' k' : ℕ} (h : Separate a n b k) (ha : a ≤ a')
    (hn : a' + n' ≤ a + n) (hb : b ≤ b') (hk : b' + k' ≤ b + k) : Separate a' n' b' k' := by
  unfold Separate at *
  omega

theorem length_zeros (n : ℕ) : (List.replicate n (0 : BitVec 8)).length = n :=
  List.length_replicate

/-- What was filled with zeros has zeros. -/
theorem load_memset_zero {m : Memory} {a n p k : ℕ} (hlow : p ≤ a) (hhigh : a + n ≤ p + k)
    (hk : p + k ≤ 2 ^ 64) :
    load (memset_zero m p k) (BitVec.ofNat 64 a) n = List.replicate n 0 := by
  apply List.ext_getElem
  · rw [length_load, length_zeros]
  · intro i hi _
    rw [length_load] at hi
    have haddr : BitVec.ofNat 64 a + BitVec.ofNat 64 i
        = BitVec.ofNat 64 p + BitVec.ofNat 64 (a - p + i) := by
      rw [← BitVec.ofNat_add, ← BitVec.ofNat_add]
      congr 1
      omega
    simp only [load, List.getElem_map, List.getElem_range, List.getElem_replicate, memset_zero]
    rw [haddr, copy_offset _ _ (by rw [length_zeros]; omega) (by rw [length_zeros]; omega)]
    exact List.getElem_replicate _

/-- A part of a range. -/
theorem inside_part {a n p k : ℕ} {x : Address} (hlow : p ≤ a) (hhigh : a + n ≤ p + k)
    (hk : p + k ≤ 2 ^ 64) (h : Inside (BitVec.ofNat 64 a) n x) :
    Inside (BitVec.ofNat 64 p) k x := by
  rw [inside_ofNat (by omega)] at h
  rw [inside_ofNat hk]
  omega

/-- Nothing else is filled. -/
theorem memset_zero_of_not_inside {m : Memory} {p k : ℕ} {x : Address}
    (h : ¬ Inside (BitVec.ofNat 64 p) k x) : memset_zero m p k x = m x :=
  copy_of_not_inside (by rw [length_zeros]; exact h)

/-- What changes in one range changes no load from another one. -/
theorem load_of_separate {m m' : Memory} {a n p k : ℕ} (h : Separate a n p k)
    (ha : a + n ≤ 2 ^ 64) (hk : p + k ≤ 2 ^ 64)
    (hsame : ∀ x, ¬ Inside (BitVec.ofNat 64 p) k x → m' x = m x) :
    load m' (BitVec.ofNat 64 a) n = load m (BitVec.ofNat 64 a) n :=
  load_congr (fun x hx => hsame x (apart_ofNat ha hk h x hx)) (by omega)

theorem read_of_separate {m m' : Memory} {a n p k : ℕ} (h : Separate a n p k)
    (ha : a + n ≤ 2 ^ 64) (hk : p + k ≤ 2 ^ 64)
    (hsame : ∀ x, ¬ Inside (BitVec.ofNat 64 p) k x → m' x = m x) :
    read m' (BitVec.ofNat 64 a) n = read m (BitVec.ofNat 64 a) n :=
  read_congr_inside (by omega) fun x hx => hsame x (apart_ofNat ha hk h x hx)

/-- A piece that lies apart keeps its bytes. -/
theorem load_memset_zero_separate {m : Memory} {a n p k : ℕ} (h : Separate a n p k)
    (ha : a + n ≤ 2 ^ 64) (hk : p + k ≤ 2 ^ 64) :
    load (memset_zero m p k) (BitVec.ofNat 64 a) n = load m (BitVec.ofNat 64 a) n :=
  load_of_separate h ha hk fun _ hx => memset_zero_of_not_inside hx

/-! ## The system -/

variable {ι : Type} [DecidableEq ι] {page_size : ℕ}

section

variable (kind : ι → TrampoKind page_size)

/-- The managers, with what their callers know: the pieces that they hold, what they last wrote
to them, and the pieces that they gave back, the last one first. -/
structure Trampos where
  mem : Memory
  pages : ∀ k, List (kind k).Page
  held : List (ι × ℕ)
  content : ι × ℕ → List (BitVec 8)
  freed : List (ι × ℕ × ℤ)

/-- The steps of several managers, and the writes of the holders. -/
inductive TrampoAct (ι : Type) where
  | alloc (k : ι) (hint range_low range_high : ℕ) (answers : TrampoAnswers)
  | free (k : ι) (trampo : ℕ) (now : ℤ)
  | write (k : ι) (trampo : ℕ) (bytes : List (BitVec 8))

end

variable {kind : ι → TrampoKind page_size}

namespace Trampos

/-- `abort` ends a run. -/
def step (s : Trampos kind) : TrampoAct ι → Option (Trampos kind)
  | .alloc k hint range_low range_high answers =>
      let out := sh_trampo_alloc (kind k) s.mem (s.pages k) hint range_low range_high answers
      let s' := { s with mem := out.mem, pages := Function.update s.pages k out.pages }
      match out.result with
      | .trampo a =>
          some { s' with
            held := (k, a) :: s.held
            content := Function.update s.content (k, a)
              (List.replicate (kind k).trampo_size 0) }
      | .failed => some s'
      | .aborted => none
  | .free k a now =>
      some { s with
        pages := Function.update s.pages k (sh_trampo_free (kind k) now a (s.pages k))
        held := s.held.erase (k, a)
        freed := (k, a, now) :: s.freed }
  | .write k a bytes =>
      some { s with
        mem := copy s.mem (BitVec.ofNat 64 a) bytes
        content := Function.update s.content (k, a)
          (bytes ++ (s.content (k, a)).drop bytes.length) }

/-- No manager has a page. -/
def start (kind : ι → TrampoKind page_size) (m : Memory) : Trampos kind where
  mem := m
  pages := fun _ => []
  held := []
  content := fun _ => []
  freed := []

/-- What the system and the callers keep to: `mmap` returns pages that are not in use, and
only pieces that are held are freed or written. -/
def Disciplined (s : Trampos kind) : TrampoAct ι → Prop
  | .alloc _ _ _ _ answers => ∀ p, answers.new_ptr = some p →
      p + page_size ≤ 2 ^ 64 ∧
        ∀ k, ∀ page ∈ s.pages k, Separate p page_size page.ptr page_size
  | .free k a _ => (k, a) ∈ s.held
  | .write k a bytes => (k, a) ∈ s.held ∧ bytes.length ≤ (kind k).trampo_size

/-- The pieces that are held lie apart, whoever holds them, and each has the content that its
holder knows. -/
structure Isolated (s : Trampos kind) : Prop where
  nodup : s.held.Nodup
  apart : ∀ k a k' b, (k, a) ∈ s.held → (k', b) ∈ s.held → (k, a) ≠ (k', b) →
    Separate a (kind k).trampo_size b (kind k').trampo_size
  content : ∀ k a, (k, a) ∈ s.held →
    load s.mem (BitVec.ofNat 64 a) (kind k).trampo_size = s.content (k, a)

/-- When a piece was last freed. -/
def lastFreed (s : Trampos kind) (k : ι) (a : ℕ) : Option ℤ :=
  (s.freed.find? fun free => free.1 = k ∧ free.2.1 = a).map fun free => free.2.2

/-- A piece that is handed out is held by nobody, lies in the range of the hint, and was not
freed within the delay. -/
def Answers (s : Trampos kind) : TrampoAct ι → Prop
  | .alloc k hint range_low range_high answers => ∀ a,
      (sh_trampo_alloc (kind k) s.mem (s.pages k) hint range_low range_high answers).result
        = .trampo a →
      (k, a) ∉ s.held ∧ (0 < hint → hint - range_low ≤ a ∧ a ≤ hint + range_high) ∧
        (0 < (kind k).delay_sec → ∀ t, s.lastFreed k a = some t →
          t + (kind k).delay_sec < answers.now)
  | _ => True

/-! ## The invariant -/

/-- Where the pages of a manager begin. -/
def ptrs (s : Trampos kind) (k : ι) : List ℕ := (s.pages k).map TrampoPage.ptr

/-- The pages of all managers lie apart. -/
structure Mapped (page_size : ℕ) (ptrs : ι → List ℕ) : Prop where
  bound : ∀ k, ∀ p ∈ ptrs k, p + page_size ≤ 2 ^ 64
  within : ∀ k, (ptrs k).Pairwise fun p q => Separate p page_size q page_size
  across : ∀ k k', k ≠ k' → ∀ p ∈ ptrs k, ∀ q ∈ ptrs k', Separate p page_size q page_size

structure Inv (s : Trampos kind) : Prop where
  mapped : Mapped page_size s.ptrs
  held_iff : ∀ k a, (k, a) ∈ s.held ↔ Taken (s.pages k) a
  nodup : s.held.Nodup
  content : ∀ k a, (k, a) ∈ s.held →
    load s.mem (BitVec.ofNat 64 a) (kind k).trampo_size = s.content (k, a)
  known : ∀ k a t, (k, a, t) ∈ s.freed → ∃ p ∈ s.ptrs k, ∃ i < (kind k).count,
    a = p + (kind k).trampo_size * i
  stamps : ∀ k, 0 < (kind k).delay_sec → ∀ page ∈ s.pages k, ∀ i < (kind k).count, ∀ t,
    s.lastFreed k (page.ptr + (kind k).trampo_size * i) = some t → page.timestamps i = t

variable {s s' : Trampos kind} {k k' : ι} {a b i j p q : ℕ}

theorem exists_freed_of_lastFreed {t : ℤ} (h : s.lastFreed k a = some t) :
    ∃ t', (k, a, t') ∈ s.freed := by
  obtain ⟨⟨k', b, t'⟩, hfind, -⟩ := Option.map_eq_some_iff.mp h
  obtain ⟨rfl, rfl⟩ : k' = k ∧ b = a := by simpa using List.find?_some hfind
  exact ⟨t', List.mem_of_find?_eq_some hfind⟩

theorem inv_start (m : Memory) : (start kind m).Inv := by
  constructor
  case mapped => constructor <;> simp [start, ptrs]
  case held_iff => intro k a; simp [start, Taken]
  all_goals simp [start, lastFreed]

theorem separate_symm : Std.Symm fun p q => Separate p page_size q page_size :=
  ⟨fun _ _ h => h.symm⟩

/-- Two pieces of the managers are the same one, or apart. -/
theorem Mapped.pieces {ptrs : ι → List ℕ} (h : Mapped page_size ptrs) (hp : p ∈ ptrs k)
    (hq : q ∈ ptrs k') (hi : i < (kind k).count) (hj : j < (kind k').count) :
    (k = k' ∧ p = q ∧ i = j) ∨
      Separate (p + (kind k).trampo_size * i) (kind k).trampo_size
        (q + (kind k').trampo_size * j) (kind k').trampo_size := by
  have hend := piece_end hi
  have hend' := piece_end hj
  by_cases hk : k = k'
  · subst hk
    by_cases hpq : p = q
    · by_cases hij : i = j
      · exact .inl ⟨rfl, hpq, hij⟩
      · right
        have hpieces := @pieces_apart _ (kind k) _ _ hij
        unfold Separate
        omega
    · right
      have hsymm := @separate_symm page_size
      have happ := (h.within k).forall hp hq hpq
      exact happ.mono (by omega) (by omega) (by omega) (by omega)
  · right
    have happ := h.across k k' hk p hp q hq
    exact happ.mono (by omega) (by omega) (by omega) (by omega)

/-- What is held is a piece of a page. -/
theorem Inv.exists_piece (h : s.Inv) (ha : (k, a) ∈ s.held) :
    ∃ p ∈ s.ptrs k, ∃ i < (kind k).count, a = p + (kind k).trampo_size * i := by
  obtain ⟨page, hpage, i, hi, -, ha⟩ := (h.held_iff k a).mp ha
  exact ⟨page.ptr, List.mem_map_of_mem hpage, i, hi, ha⟩

/-- Pieces of one page, and of two, lie apart. -/
theorem Inv.isolated (h : s.Inv) : s.Isolated := by
  refine ⟨h.nodup, ?_, h.content⟩
  intro k a k' b ha hb hne
  obtain ⟨p, hp, i, hi, rfl⟩ := h.exists_piece ha
  obtain ⟨q, hq, j, hj, rfl⟩ := h.exists_piece hb
  rcases h.mapped.pieces hp hq hi hj with ⟨rfl, rfl, rfl⟩ | happ
  · exact absurd rfl hne
  · exact happ

/-- A piece that is held ends in the address space. -/
theorem Inv.held_bound (h : s.Inv) (ha : (k, a) ∈ s.held) :
    a + (kind k).trampo_size ≤ 2 ^ 64 := by
  obtain ⟨p, hp, i, hi, rfl⟩ := h.exists_piece ha
  have hend := piece_end hi
  have hbound := h.mapped.bound k p hp
  omega

/-- A page is known by its address. -/
theorem Inv.page_unique (h : s.Inv) {page page' : (kind k).Page} (hpage : page ∈ s.pages k)
    (hpage' : page' ∈ s.pages k) (hptr : page.ptr = page'.ptr) : page = page' := by
  by_contra hne
  have hsymm : Std.Symm fun page page' : (kind k).Page =>
      Separate page.ptr page_size page'.ptr page_size := ⟨fun _ _ h => h.symm⟩
  have happ := (List.pairwise_map.mp (h.mapped.within k)).forall hpage hpage' hne
  have hfits := (kind k).fits
  have hpos := (kind k).pos
  unfold Separate at happ
  omega

/-- A piece that the search finds is not held. -/
theorem Inv.not_held (h : s.Inv) {r : HintRange} {now : ℤ} {pages : List (kind k).Page}
    (htakes : Takes r now (s.pages k) pages a) : (k, a) ∉ s.held := by
  intro ha
  obtain ⟨page, hpage, i, hfound, rfl⟩ := htakes.exists_page
  obtain ⟨page', hpage', j, hj, htest, heq⟩ := (h.held_iff k _).mp ha
  have hmem : page.ptr ∈ s.ptrs k := List.mem_map_of_mem hpage
  have hmem' : page'.ptr ∈ s.ptrs k := List.mem_map_of_mem hpage'
  have hpos := (kind k).pos
  rcases h.mapped.pieces hmem hmem' hfound.lt hj with ⟨-, hptr, rfl⟩ | happ
  · obtain rfl := h.page_unique hpage hpage' hptr
    rw [hfound.unused] at htest
    cases htest
  · unfold Separate at happ
    omega

/-! ## The steps -/

/-- A step that leaves the pages of the managers where they are. -/
theorem ptrs_of_map_eq {pages : List (kind k).Page}
    (hmap : pages.map TrampoPage.ptr = (s.pages k).map TrampoPage.ptr) :
    (fun k' => ((Function.update s.pages k pages) k').map TrampoPage.ptr) = s.ptrs := by
  funext k'
  by_cases hk : k' = k
  · subst hk
    rw [Function.update_self]
    exact hmap
  · rw [Function.update_of_ne hk]
    rfl

/-- A piece of a page that is there is taken. -/
theorem Inv.reused (h : s.Inv) {r : HintRange} {now : ℤ} {pages : List (kind k).Page}
    (htakes : Takes r now (s.pages k) pages a) :
    Inv { s with
      mem := memset_zero s.mem a (kind k).trampo_size
      pages := Function.update s.pages k pages
      held := (k, a) :: s.held
      content := Function.update s.content (k, a) (List.replicate (kind k).trampo_size 0) } := by
  have hnot := h.not_held htakes
  obtain ⟨page, hpage, i, hfound, ha⟩ := htakes.exists_page
  have hmem : page.ptr ∈ s.ptrs k := List.mem_map_of_mem hpage
  have hbound := h.mapped.bound k _ hmem
  have hend := piece_end hfound.lt
  have hptrs := ptrs_of_map_eq htakes.map_ptr
  constructor
  case mapped =>
    unfold ptrs
    rw [hptrs]
    exact h.mapped
  case held_iff =>
    intro k' b
    by_cases hk : k' = k
    · subst hk
      simp only [Function.update_self, List.mem_cons, Prod.mk.injEq, true_and,
        htakes.taken_iff, h.held_iff]
    · simp only [Function.update_of_ne hk, List.mem_cons, Prod.mk.injEq, hk, false_and,
        false_or, h.held_iff]
  case nodup => exact List.nodup_cons.mpr ⟨hnot, h.nodup⟩
  case content =>
    intro k' b hb
    rcases List.mem_cons.mp hb with heq | hb
    · obtain ⟨rfl, rfl⟩ := Prod.mk.inj heq
      simp only [Function.update_self]
      exact load_memset_zero (le_refl b) (le_refl _) (by omega)
    · have hne : (k', b) ≠ (k, a) := fun heq => hnot (heq ▸ hb)
      obtain ⟨q, hq, j, hj, rfl⟩ := h.exists_piece hb
      have hsep : Separate (q + (kind k').trampo_size * j) (kind k').trampo_size a
          (kind k).trampo_size := by
        rcases h.mapped.pieces hq hmem hj hfound.lt with ⟨rfl, rfl, rfl⟩ | happ
        · exact absurd (by rw [ha]) hne
        · rw [ha]
          exact happ
      simp only [Function.update_of_ne hne]
      rw [load_memset_zero_separate hsep (h.held_bound hb) (by omega)]
      exact h.content k' _ hb
  case known =>
    intro k' b t hfreed
    unfold ptrs
    rw [congrFun hptrs k']
    exact h.known k' b t hfreed
  case stamps =>
    intro k' hdelay page' hpage' j hj t hlast
    by_cases hk : k' = k
    · subst hk
      simp only [Function.update_self] at hpage'
      obtain ⟨page'', hpage'', hptr, hstamps⟩ := htakes.timestamps hpage'
      rw [← hstamps]
      exact h.stamps k' hdelay page'' hpage'' j hj t (hptr ▸ hlast)
    · simp only [Function.update_of_ne hk] at hpage'
      exact h.stamps k' hdelay page' hpage' j hj t hlast

/-- Pages that `mmap` returns lie apart from those that are there. -/
theorem Mapped.cons {ptrs ptrs' : ι → List ℕ} (h : Mapped page_size ptrs)
    (hbound : p + page_size ≤ 2 ^ 64)
    (hsep : ∀ k, ∀ q ∈ ptrs k, Separate p page_size q page_size)
    (hself : ptrs' k = p :: ptrs k) (hother : ∀ k', k' ≠ k → ptrs' k' = ptrs k') :
    Mapped page_size ptrs' := by
  have hmem : ∀ {k' q}, q ∈ ptrs' k' → k' = k ∧ q = p ∨ q ∈ ptrs k' := by
    intro k' q hq
    by_cases hk : k' = k
    · subst hk
      rw [hself] at hq
      exact (List.mem_cons.mp hq).imp (fun hq => ⟨rfl, hq⟩) id
    · rw [hother k' hk] at hq
      exact .inr hq
  constructor
  · intro k' q hq
    rcases hmem hq with ⟨-, rfl⟩ | hq
    · exact hbound
    · exact h.bound k' q hq
  · intro k'
    by_cases hk : k' = k
    · subst hk
      rw [hself]
      exact List.pairwise_cons.mpr ⟨hsep k', h.within k'⟩
    · rw [hother k' hk]
      exact h.within k'
  · intro k₁ k₂ hne q₁ hq₁ q₂ hq₂
    rcases hmem hq₁ with ⟨rfl, rfl⟩ | hq₁
    · rcases hmem hq₂ with ⟨rfl, rfl⟩ | hq₂
      · exact absurd rfl hne
      · exact hsep k₂ q₂ hq₂
    · rcases hmem hq₂ with ⟨rfl, rfl⟩ | hq₂
      · exact (hsep k₁ q₁ hq₁).symm
      · exact h.across k₁ k₂ hne q₁ hq₁ q₂ hq₂

/-- A piece of a new page is taken. -/
theorem Inv.fresh (h : s.Inv) (hbound : p + page_size ≤ 2 ^ 64)
    (hsep : ∀ k, ∀ q ∈ s.ptrs k, Separate p page_size q page_size) (hi : i < (kind k).count) :
    Inv { s with
      mem := memset_zero s.mem p page_size
      pages := Function.update s.pages k (newPage (kind k) p i :: s.pages k)
      held := (k, p + (kind k).trampo_size * i) :: s.held
      content := Function.update s.content (k, p + (kind k).trampo_size * i)
        (List.replicate (kind k).trampo_size 0) } := by
  have hend := piece_end hi
  have hpos := (kind k).pos
  -- nothing that is known of the old pages is about the new one
  have hold : ∀ {k' q j}, q ∈ s.ptrs k' → j < (kind k').count →
      Separate (q + (kind k').trampo_size * j) (kind k').trampo_size p page_size := by
    intro k' q j hq hj
    have hend' := piece_end hj
    exact (hsep k' q hq).symm.mono (by omega) (by omega) (le_refl p) (le_refl _)
  have hnot : (k, p + (kind k).trampo_size * i) ∉ s.held := by
    intro hheld
    obtain ⟨q, hq, j, hj, heq⟩ := h.exists_piece hheld
    have happ := hold hq hj
    unfold Separate at happ
    omega
  constructor
  case mapped =>
    refine h.mapped.cons hbound hsep (k := k) ?_ ?_
    · simp only [ptrs, Function.update_self, List.map_cons]
      rfl
    · intro k' hk
      simp only [ptrs, Function.update_of_ne hk]
  case held_iff =>
    intro k' b
    by_cases hk : k' = k
    · subst hk
      simp only [Function.update_self, List.mem_cons, Prod.mk.injEq, true_and,
        newPage_taken hi, h.held_iff]
    · simp only [Function.update_of_ne hk, List.mem_cons, Prod.mk.injEq, hk, false_and,
        false_or, h.held_iff]
  case nodup => exact List.nodup_cons.mpr ⟨hnot, h.nodup⟩
  case content =>
    intro k' b hb
    rcases List.mem_cons.mp hb with heq | hb
    · obtain ⟨rfl, rfl⟩ := Prod.mk.inj heq
      simp only [Function.update_self]
      exact load_memset_zero (by omega) (by omega) hbound
    · have hne : (k', b) ≠ (k, p + (kind k).trampo_size * i) := fun heq => hnot (heq ▸ hb)
      obtain ⟨q, hq, j, hj, heq⟩ := h.exists_piece hb
      simp only [Function.update_of_ne hne]
      rw [load_memset_zero_separate (heq ▸ hold hq hj) (h.held_bound hb) hbound]
      exact h.content k' b hb
  case known =>
    intro k' b t hfreed
    obtain ⟨q, hq, j, hj, rfl⟩ := h.known k' b t hfreed
    refine ⟨q, ?_, j, hj, rfl⟩
    by_cases hk : k' = k
    · subst hk
      simp only [ptrs, Function.update_self]
      exact List.mem_cons_of_mem _ hq
    · simp only [ptrs, Function.update_of_ne hk]
      exact hq
  case stamps =>
    intro k' hdelay page hpage j hj t hlast
    by_cases hk : k' = k
    · subst hk
      simp only [Function.update_self] at hpage
      rcases List.mem_cons.mp hpage with rfl | hpage
      · -- the new page has no piece that was freed
        obtain ⟨t', hmem⟩ := exists_freed_of_lastFreed hlast
        obtain ⟨q, hq, j', hj', heq⟩ := h.known _ _ _ hmem
        have happ := hold hq hj'
        have hend' := piece_end hj
        unfold Separate at happ
        have hptr : (newPage (kind k') p i).ptr = p := rfl
        omega
      · exact h.stamps k' hdelay page hpage j hj t hlast
    · simp only [Function.update_of_ne hk] at hpage
      exact h.stamps k' hdelay page hpage j hj t hlast

theorem lastFreed_cons {now : ℤ} : ({ s with freed := (k, a, now) :: s.freed }).lastFreed k' b
    = if k = k' ∧ a = b then some now else s.lastFreed k' b := by
  unfold lastFreed
  rw [List.find?_cons]
  by_cases hsame : k = k' ∧ a = b
  · rw [if_pos hsame, decide_eq_true hsame]
    rfl
  · rw [if_neg hsame, decide_eq_false hsame]

/-- A piece is given back, with the time. -/
theorem Inv.freed (h : s.Inv) {now : ℤ} {pages : List (kind k).Page} (hheld : (k, a) ∈ s.held)
    (hfrees : Frees now (s.pages k) pages a) :
    Inv { s with
      pages := Function.update s.pages k pages
      held := s.held.erase (k, a)
      freed := (k, a, now) :: s.freed } := by
  have hptrs := ptrs_of_map_eq hfrees.map_ptr
  have hsep := List.pairwise_map.mp (h.mapped.within k)
  constructor
  case mapped =>
    unfold ptrs
    rw [hptrs]
    exact h.mapped
  case held_iff =>
    intro k' b
    rw [h.nodup.mem_erase_iff]
    by_cases hk : k' = k
    · subst hk
      simp only [Function.update_self, ne_eq, Prod.mk.injEq, true_and, hfrees.taken_iff hsep,
        h.held_iff]
      exact and_comm
    · simp only [Function.update_of_ne hk, ne_eq, Prod.mk.injEq, hk, false_and,
        not_false_eq_true, true_and, h.held_iff]
  case nodup => exact h.nodup.erase _
  case content => exact fun k' b hb => h.content k' b (List.mem_of_mem_erase hb)
  case known =>
    intro k' b t hmem
    unfold ptrs
    rw [congrFun hptrs k']
    rcases List.mem_cons.mp hmem with heq | hmem
    · obtain ⟨rfl, rfl, rfl⟩ : k' = k ∧ b = a ∧ t = now := by simpa using heq
      exact h.exists_piece hheld
    · exact h.known k' b t hmem
  case stamps =>
    intro k' hdelay page hpage j hj t hlast
    have hlast' : (if k = k' ∧ a = page.ptr + (kind k').trampo_size * j then some now
        else s.lastFreed k' (page.ptr + (kind k').trampo_size * j)) = some t :=
      lastFreed_cons.symm.trans hlast
    by_cases hk : k' = k
    · subst hk
      simp only [Function.update_self] at hpage
      obtain ⟨page', hpage', hptr, hstamp⟩ := hfrees.stamped hsep hdelay hpage hj
      rw [hstamp]
      split at hlast'
      · rename_i hsame
        rw [if_pos hsame.2.symm]
        exact Option.some.inj hlast'
      · rename_i hother
        rw [if_neg fun heq => hother ⟨rfl, heq.symm⟩]
        exact h.stamps k' hdelay page' hpage' j hj t (hptr ▸ hlast')
    · simp only [Function.update_of_ne hk] at hpage
      rw [if_neg fun hsame => hk hsame.1.symm] at hlast'
      exact h.stamps k' hdelay page hpage j hj t hlast'

/-- A write to a piece that is held changes no other one. -/
theorem Inv.written (h : s.Inv) {bytes : List (BitVec 8)} (hheld : (k, a) ∈ s.held)
    (hlen : bytes.length ≤ (kind k).trampo_size) :
    Inv { s with
      mem := copy s.mem (BitVec.ofNat 64 a) bytes
      content := Function.update s.content (k, a)
        (bytes ++ (s.content (k, a)).drop bytes.length) } := by
  refine { h with content := ?_ }
  intro k' b hb
  have hbound := h.held_bound hheld
  have hbound' := h.held_bound hb
  by_cases hsame : (k', b) = (k, a)
  · obtain ⟨rfl, rfl⟩ := Prod.mk.inj hsame
    simp only [Function.update_self, ← h.content k' b hb]
    exact load_copy_prefix hlen (by omega)
  · simp only [Function.update_of_ne hsame]
    have happ := h.isolated.apart k' b k a hb hheld hsame
    rw [load_copy_apart (apart_ofNat hbound' (by omega) (happ.mono (le_refl b) (le_refl _)
      (le_refl a) (by omega))) (by omega)]
    exact h.content k' b hb

/-- A change of the memory outside of the pieces. -/
theorem Inv.elsewhere (h : s.Inv) {m : Memory} (hm : ∀ k a, (k, a) ∈ s.held →
      load m (BitVec.ofNat 64 a) (kind k).trampo_size
        = load s.mem (BitVec.ofNat 64 a) (kind k).trampo_size) :
    Inv { s with mem := m } := by
  refine { h with content := ?_ }
  intro k' a ha
  rw [← h.content k' a ha]
  exact hm k' a ha

/-- An allocation that fails may have cleared a page that it gave back. -/
theorem Inv.failed (h : s.Inv) {m : Memory} (hm : ∀ k a, (k, a) ∈ s.held →
      load m (BitVec.ofNat 64 a) (kind k).trampo_size
        = load s.mem (BitVec.ofNat 64 a) (kind k).trampo_size) :
    Inv { s with mem := m, pages := Function.update s.pages k (s.pages k) } := by
  rw [Function.update_eq_self]
  exact h.elsewhere hm

theorem Inv.step (h : s.Inv) {act : TrampoAct ι} (hguard : s.Disciplined act)
    (hstep : s.step act = some s') : s'.Inv := by
  cases act with
  | alloc k hint range_low range_high answers =>
      have hcases := alloc_cases s.mem (s.pages k) hint range_low range_high answers
      simp only [Trampos.step] at hstep
      generalize sh_trampo_alloc (kind k) s.mem (s.pages k) hint range_low range_high answers
        = out at hcases hstep
      have hsep : ∀ {p}, answers.new_ptr = some p →
          ∀ k, ∀ q ∈ s.ptrs k, Separate p page_size q page_size := by
        intro p hmapped k q hq
        obtain ⟨page, hpage, rfl⟩ := List.mem_map.mp hq
        exact (hguard p hmapped).2 k page hpage
      cases hcases with
      | reused htakes =>
          obtain rfl := Option.some.inj hstep
          exact h.reused htakes
      | fresh hmapped hi =>
          obtain rfl := Option.some.inj hstep
          exact h.fresh (hguard _ hmapped).1 (hsep hmapped) hi
      | failed =>
          obtain rfl := Option.some.inj hstep
          exact h.failed fun _ _ _ => rfl
      | unmapped hmapped =>
          obtain rfl := Option.some.inj hstep
          refine h.failed fun k' a ha => ?_
          obtain ⟨q, hq, j, hj, rfl⟩ := h.exists_piece ha
          have hend := piece_end hj
          have happ := (hsep hmapped k' q hq).symm
          exact load_memset_zero_separate
            (happ.mono (by omega) (by omega) (le_refl _) (le_refl _)) (h.held_bound ha)
            (hguard _ hmapped).1
      | aborted => cases hstep
  | free k a now =>
      obtain rfl := Option.some.inj hstep
      obtain ⟨page, hpage, i, hi, -, rfl⟩ := (h.held_iff k a).mp hguard
      exact h.freed hguard (free_cases now (List.pairwise_map.mp (h.mapped.within k)) hpage hi)
  | write k a bytes =>
      obtain rfl := Option.some.inj hstep
      exact h.written hguard.1 hguard.2

theorem Inv.answers (h : s.Inv) {act : TrampoAct ι} (hguard : s.Disciplined act) :
    s.Answers act := by
  cases act with
  | alloc k hint range_low range_high answers =>
      intro a hresult
      have hcases := alloc_cases s.mem (s.pages k) hint range_low range_high answers
      generalize sh_trampo_alloc (kind k) s.mem (s.pages k) hint range_low range_high answers
        = out at hcases hresult
      cases hcases with
      | reused htakes =>
          obtain rfl := TrampoResult.trampo.inj hresult
          obtain ⟨page, hpage, i, hfound, ha⟩ := htakes.exists_page
          refine ⟨h.not_held htakes, ha ▸ HintRange.inRange_of_clip hfound.inRange, ?_⟩
          intro hdelay t hlast
          have hstamp := h.stamps k hdelay page hpage i hfound.lt t (ha ▸ hlast)
          have hready := hfound.ready
          simp only [ready, gt_iff_lt, hdelay, decide_true, Bool.true_and, Bool.not_eq_true',
            Bool.or_eq_false_iff, decide_eq_false_iff_not, hstamp] at hready
          omega
      | fresh hmapped hi hin =>
          obtain rfl := TrampoResult.trampo.inj hresult
          rename_i p i
          have hnew : ∀ q ∈ s.ptrs k, ∀ j < (kind k).count,
              p + (kind k).trampo_size * i ≠ q + (kind k).trampo_size * j := by
            intro q hq j hj
            obtain ⟨page, hpage, rfl⟩ := List.mem_map.mp hq
            have hsep := (hguard p hmapped).2 k page hpage
            have hend := piece_end hi
            have hend' := piece_end hj
            have hpos := (kind k).pos
            unfold Separate at hsep
            omega
          refine ⟨?_, HintRange.inRange_of_clip hin, ?_⟩
          · intro hheld
            obtain ⟨q, hq, j, hj, heq⟩ := h.exists_piece hheld
            exact hnew q hq j hj heq
          · intro _ t hlast
            obtain ⟨b, hmem⟩ := exists_freed_of_lastFreed hlast
            obtain ⟨q, hq, j, hj, heq⟩ := h.known k _ _ hmem
            exact absurd heq (hnew q hq j hj)
      | failed => cases hresult
      | unmapped => cases hresult
      | aborted => cases hresult
  | free => trivial
  | write => trivial

/-- In every run of the managers, whatever the clocks show and whatever `mmap` and `calloc`
answer, the pieces that are held lie apart and keep what their holders wrote to them. -/
theorem trampos_isolated (kind : ι → TrampoKind page_size) (m : Memory)
    (acts : List (TrampoAct ι)) (h : Runs.Guarded step Disciplined (start kind m) acts) :
    Runs.Always step Isolated (start kind m) acts :=
  (Runs.always_of_guarded (fun _ _ _ h hguard => h.step hguard) acts (inv_start m) h).mono
    fun _ h => h.isolated

/-- Two allocations for `enter` in a new page, with a write between them, and a free. -/
theorem trampos_isolated_enter : Runs.Always step Isolated
    (start (fun _ : Unit => (⟨256, 10, by decide, by decide⟩ : TrampoKind 4096)) fun _ => 0)
    [.alloc () 0 0 0 ⟨100, some 0x10000, true, true, true⟩, .write () 0x10000 [1, 2],
      .alloc () 0 0 0 ⟨101, none, true, true, true⟩, .free () 0x10000 102] := by
  apply trampos_isolated
  refine ⟨?_, ⟨?_, ?_⟩, ?_, ?_, trivial⟩
  · rintro p ⟨⟩
    exact ⟨by decide, fun _ _ hpage => (List.not_mem_nil hpage).elim⟩
  · exact List.mem_cons_self ..
  · show 2 ≤ 256
    decide
  · rintro p ⟨⟩
  · exact List.mem_cons_of_mem _ (List.mem_cons_self ..)

/-- In every run, what an allocation hands out is held by nobody else, lies in the range that
was asked for, and has not been freed for longer than the delay. -/
theorem trampos_answer (kind : ι → TrampoKind page_size) (m : Memory)
    (acts : List (TrampoAct ι)) (h : Runs.Guarded step Disciplined (start kind m) acts) :
    Runs.Guarded step Answers (start kind m) acts :=
  Runs.guarded_of_guarded (fun _ _ _ h hguard hstep => ⟨h.step hguard hstep, h.answers hguard⟩)
    acts (inv_start m) h

theorem trampos_answer_exit : Runs.Guarded step Answers
    (start (fun _ : Unit => (⟨16, 2, by decide, by decide⟩ : TrampoKind 4096)) fun _ => 0)
    [.alloc () 0x20000 0x10000 0x10000 ⟨100, some 0x10000, true, true, true⟩,
      .free () 0x10000 101,
      .alloc () 0x20000 0x10000 0x10000 ⟨104, none, true, true, true⟩] := by
  apply trampos_answer
  refine ⟨?_, ?_, ?_, trivial⟩
  · rintro p ⟨⟩
    exact ⟨by decide, fun _ _ hpage => (List.not_mem_nil hpage).elim⟩
  · exact List.mem_cons_self ..
  · rintro p ⟨⟩

end Trampos

end ShadowHook
