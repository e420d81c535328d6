/-
# The memory of the hooks

The pieces of the two managers and the exits in the gaps of the libraries are parts of one
memory, whose rest belongs to the program.  What `sh_inst.c` does to it is a sequence of steps
that each keep all other pieces and everything that belongs to the program.
-/
import LiuHookWorld.InstHook

namespace ShadowHook

open ByteMemory A64

/-! ## Pages and segments -/

section

variable {page : PageSize}

/-- A page that may be used for pieces. -/
structure Placed (libs : List (ExitLibrary page.bytes)) (p : ℕ) : Prop where
  pos : 0 < p
  aligned : 16 ∣ p
  bound : p + page.bytes ≤ 2 ^ 64
  apart : ∀ lib ∈ libs, Separate p page.bytes lib.low (lib.high - lib.low)

/-- A page that `mmap` returns: it has zeros and is not in use. -/
structure Fresh (libs : List (ExitLibrary page.bytes)) (st : InstState page) (p : ℕ) : Prop where
  placed : Placed libs p
  pages : ∀ k, ∀ q ∈ st.pages k, Separate p page.bytes q.ptr page.bytes
  zeros : load st.mem (BitVec.ofNat 64 p) page.bytes = List.replicate page.bytes 0

/-- A range in a segment of a library. -/
def InSegment (libs : List (ExitLibrary page.bytes)) (a n : ℕ) : Prop :=
  ∃ lib ∈ libs, ∃ phdr ∈ lib.dlpi_phdr, phdr.load ∧ lib.dli_fbase + phdr.p_vaddr ≤ a ∧
    a + n ≤ phdr.stop lib.dli_fbase

end

/-! ## Pieces -/

/-- What is known of the pieces of the managers and of the exits in the gaps. -/
structure Ghost (page : PageSize) where
  trampos : Trampos (InstMgr.kind page)
  exits : List (ℕ × List (BitVec 8))

/-- A piece of a manager, or an exit in a gap. -/
inductive Piece where
  | trampo (k : InstMgr) (a : ℕ)
  | library (a : ℕ)

namespace Ghost

variable {page : PageSize}

def state (g : Ghost page) (locked : Bool) : InstState page :=
  ⟨g.trampos.mem, g.trampos.pages, locked⟩

def mem (g : Ghost page) : Memory := g.trampos.mem

/-- A piece is held, and has the bytes. -/
def Has (g : Ghost page) : Piece → List (BitVec 8) → Prop
  | .trampo k a, bytes => (k, a) ∈ g.trampos.held ∧ g.trampos.content (k, a) = bytes
  | .library a, bytes => (a, bytes) ∈ g.exits

/-- An address that belongs to the program. -/
structure Outside (libs : List (ExitLibrary page.bytes)) (g : Ghost page) (x : Address) :
    Prop where
  pages : ∀ k, ∀ p ∈ g.trampos.ptrs k, ¬ Inside (BitVec.ofNat 64 p) page.bytes x
  gaps : ∀ gap ∈ Exits.allGaps libs,
    ¬ Inside (BitVec.ofNat 64 gap.start) (gap.stop - gap.start) x

structure Inv (libs : List (ExitLibrary page.bytes)) (g : Ghost page) : Prop where
  trampos : g.trampos.Inv
  known : Exits.Known (Exits.allGaps libs) g.mem g.exits
  placed : ∀ k, ∀ p ∈ g.trampos.ptrs k, Placed libs p

/-- A step keeps the pieces, some of them excepted, and all that belongs to the program. -/
structure Kept (libs : List (ExitLibrary page.bytes)) (except : List Piece)
    (g g' : Ghost page) : Prop where
  ptrs : ∀ k, g.trampos.ptrs k ⊆ g'.trampos.ptrs k
  has : ∀ p bytes, p ∉ except → g.Has p bytes → g'.Has p bytes
  outside : ∀ x, Outside libs g' x → g'.mem x = g.mem x

section

variable {libs : List (ExitLibrary page.bytes)} {except : List Piece} {g g' g'' : Ghost page}
  {piece : Piece} {k : InstMgr} {a p n : ℕ} {m : Memory}

theorem Kept.refl (libs : List (ExitLibrary page.bytes)) (except : List Piece) (g : Ghost page) :
    Kept libs except g g :=
  ⟨fun _ => List.Subset.refl _, fun _ _ _ h => h, fun _ _ => rfl⟩

theorem Kept.trans (h : Kept libs except g g') (h' : Kept libs except g' g'') :
    Kept libs except g g'' where
  ptrs := fun k => List.Subset.trans (h.ptrs k) (h'.ptrs k)
  has := fun p bytes hp hhas => h'.has p bytes hp (h.has p bytes hp hhas)
  outside := fun x hx =>
    (h'.outside x hx).trans (h.outside x ⟨fun k p hp => hx.pages k p (h'.ptrs k hp), hx.gaps⟩)

theorem Kept.mono {except' : List Piece} (h : Kept libs except g g') (hsub : except ⊆ except') :
    Kept libs except' g g' :=
  { h with has := fun p bytes hp => h.has p bytes fun hmem => hp (hsub hmem) }

/-- Nobody held an excepted piece before. -/
theorem Kept.drop (h : Kept libs (piece :: except) g g') (hnew : ∀ bytes, ¬ g.Has piece bytes) :
    Kept libs except g g' := by
  refine { h with has := fun p bytes hp hhas => h.has p bytes (fun hmem => ?_) hhas }
  rcases List.mem_cons.mp hmem with rfl | hmem
  · exact hnew bytes hhas
  · exact hp hmem

theorem Inv.load (h : Inv libs g) {bytes : List (BitVec 8)} (hhas : g.Has (.trampo k a) bytes) :
    ByteMemory.load g.mem (BitVec.ofNat 64 a) (k.kind page).trampo_size = bytes :=
  (h.trampos.content k a hhas.1).trans hhas.2

theorem Inv.length (h : Inv libs g) {bytes : List (BitVec 8)}
    (hhas : g.Has (.trampo k a) bytes) : bytes.length = (k.kind page).trampo_size := by
  rw [← h.load hhas, length_load]

theorem page_pos (page : PageSize) : 0 < page.bytes := Nat.lt_of_lt_of_le (by decide) page.enough

/-- Where a piece lies. -/
theorem Inv.exists_page (h : Inv libs g) {bytes : List (BitVec 8)}
    (hhas : g.Has (.trampo k a) bytes) : ∃ p ∈ g.trampos.ptrs k, Placed libs p ∧
      p ≤ a ∧ a + (k.kind page).trampo_size ≤ p + page.bytes ∧ 16 ∣ a := by
  obtain ⟨p, hp, i, hi, rfl⟩ := h.trampos.exists_piece hhas.1
  have hend := piece_end hi
  have hplaced := h.placed k p hp
  have hsize : 16 ∣ (k.kind page).trampo_size := by
    cases k with
    | enter => exact (by decide : 16 ∣ 256)
    | exit => exact (by decide : 16 ∣ 16)
  exact ⟨p, hp, hplaced, Nat.le_add_right _ _, by omega,
    Nat.dvd_add hplaced.aligned (Nat.dvd_trans hsize (Nat.dvd_mul_right _ _))⟩

/-- A page is apart from the gaps, which lie in the libraries. -/
theorem placed_gap (hp : Placed libs p) {gap : ExitGap} (hgap : gap ∈ Exits.allGaps libs) :
    Separate p page.bytes gap.start (gap.stop - gap.start) := by
  obtain ⟨lib, hlib, hgap⟩ := List.mem_flatMap.mp hgap
  obtain ⟨hbetween, -⟩ := (gaps_apart (page_pos page) page.aligned lib).1 gap hgap
  have hlow := hbetween.low
  have hlt := hbetween.lt
  have hhigh := hbetween.high
  exact (hp.apart lib hlib).mono (Nat.le_refl _) (Nat.le_refl _) hlow (by omega)

/-- A page is apart from the segments. -/
theorem placed_segment (hp : Placed libs p) (hn : InSegment libs a n) :
    Separate a n p page.bytes := by
  obtain ⟨lib, hlib, phdr, hphdr, hload, hlow, hhigh⟩ := hn
  have hinside := lib.inside phdr hphdr hload
  have hpages := segment_pages lib.dli_fbase (page_pos page) phdr
  have happ := hp.apart lib hlib
  unfold Separate at *
  omega

theorem segment_gap (hlibs : Exits.LibrariesApart libs) (hn : InSegment libs a n)
    {gap : ExitGap} (hgap : gap ∈ Exits.allGaps libs) :
    Separate a n gap.start (gap.stop - gap.start) := by
  obtain ⟨lib, hlib, phdr, hphdr, hload, hlow, hhigh⟩ := hn
  have happ := Exits.gap_segment (page_pos page) page.aligned hlibs hgap hlib hphdr hload
  have hlt := ((Exits.gapsApart (page_pos page) page.aligned hlibs).between gap hgap).lt
  unfold Separate
  omega

/-- A function belongs to the program. -/
theorem Inv.outside (hlibs : Exits.LibrariesApart libs) (h : Inv libs g)
    (hn : InSegment libs a n) (hbound : a + n ≤ 2 ^ 64) {x : Address}
    (hx : Inside (BitVec.ofNat 64 a) n x) : Outside libs g x := by
  refine ⟨fun k p hp => ?_, fun gap hgap => ?_⟩
  · have hplaced := h.placed k p hp
    exact apart_ofNat hbound hplaced.bound (placed_segment hplaced hn) x hx
  · have hbetween := (Exits.gapsApart (page_pos page) page.aligned hlibs).between gap hgap
    have hlt := hbetween.lt
    have hhigh := hbetween.high
    exact apart_ofNat hbound (by omega) (segment_gap hlibs hn hgap) x hx

/-- What a step keeps is in particular every function. -/
theorem Kept.load (hlibs : Exits.LibrariesApart libs) (h : Kept libs except g g')
    (hinv : Inv libs g') (hn : InSegment libs a n) (hbound : a + n ≤ 2 ^ 64) :
    ByteMemory.load g'.mem (BitVec.ofNat 64 a) n = ByteMemory.load g.mem (BitVec.ofNat 64 a) n :=
  load_congr (fun x hx => h.outside x (hinv.outside hlibs hn hbound hx)) (by omega)

/-! ### The steps -/

/-- A change in a page changes no exit in a gap. -/
theorem Inv.known_page (hlibs : Exits.LibrariesApart libs) (h : Inv libs g)
    (hp : Placed libs p) (hlow : p ≤ a) (hhigh : a + n ≤ p + page.bytes)
    (hsame : ∀ x, ¬ Inside (BitVec.ofNat 64 a) n x → m x = g.mem x) :
    Exits.Known (Exits.allGaps libs) m g.exits := by
  have hbound := hp.bound
  refine h.known.elsewhere (Exits.gapsApart (page_pos page) page.aligned hlibs) (by omega) hsame
    fun gap hgap => ?_
  exact (placed_gap hp hgap).mono hlow hhigh (Nat.le_refl _) (Nat.le_refl _)

/-- Nor does it change what belongs to the program. -/
theorem outside_page (hp : p ∈ g.trampos.ptrs k) (hplaced : Placed libs p) (hlow : p ≤ a)
    (hhigh : a + n ≤ p + page.bytes)
    (hsame : ∀ x, ¬ Inside (BitVec.ofNat 64 a) n x → m x = g'.mem x) {x : Address}
    (hx : Outside libs g x) : m x = g'.mem x :=
  hsame x fun hin => hx.pages k p hp (inside_part hlow hhigh hplaced.bound hin)

def write (g : Ghost page) (k : InstMgr) (a : ℕ) (bytes : List (BitVec 8)) : Ghost page where
  trampos := {
    g.trampos with
    mem := copy g.mem (BitVec.ofNat 64 a) bytes
    content := Function.update g.trampos.content (k, a)
      (bytes ++ (g.trampos.content (k, a)).drop bytes.length) }
  exits := g.exits

/-- A write to a piece that is held. -/
theorem Inv.write (hlibs : Exits.LibrariesApart libs) (h : Inv libs g)
    {old bytes : List (BitVec 8)} (hhas : g.Has (.trampo k a) old)
    (hlen : bytes.length ≤ (k.kind page).trampo_size) :
    Inv libs (g.write k a bytes) ∧ Kept libs [.trampo k a] g (g.write k a bytes) ∧
      (g.write k a bytes).Has (.trampo k a) (bytes ++ old.drop bytes.length) := by
  obtain ⟨p, hp, hplaced, hlow, hhigh, -⟩ := h.exists_page hhas
  have hsame : ∀ x, ¬ Inside (BitVec.ofNat 64 a) bytes.length x →
      (g.write k a bytes).mem x = g.mem x := fun x hx => copy_of_not_inside hx
  have hknown := h.known_page hlibs hplaced hlow (by omega) hsame
  refine ⟨⟨h.trampos.written hhas.1 hlen, hknown, h.placed⟩,
    ⟨fun _ => List.Subset.refl _, ?_, ?_⟩, hhas.1, ?_⟩
  · intro piece bytes' hne hold
    cases piece with
    | trampo k' b =>
        have hne' : (k', b) ≠ (k, a) := by
          rintro ⟨⟩
          exact hne (List.mem_singleton_self _)
        refine ⟨hold.1, ?_⟩
        simp only [Ghost.write, Function.update_of_ne hne']
        exact hold.2
    | library b => exact hold
  · intro x hx
    exact outside_page (g := g) hp hplaced hlow (by omega) hsame ⟨hx.pages, hx.gaps⟩
  · simp only [Ghost.write, Function.update_self, hhas.2]

def free (g : Ghost page) (k : InstMgr) (a : ℕ) (now : ℤ) : Ghost page where
  trampos := {
    g.trampos with
    pages := Function.update g.trampos.pages k
      (sh_trampo_free (k.kind page) now a (g.trampos.pages k))
    held := g.trampos.held.erase (k, a)
    freed := (k, a, now) :: g.trampos.freed }
  exits := g.exits

theorem trampo_free_eq (g : Ghost page) (locked : Bool) (k : InstMgr) (a : ℕ) (now : ℤ) :
    trampo_free (g.state locked) k a now = (g.free k a now).state locked := rfl

/-- A piece that is held is freed. -/
theorem Inv.free (h : Inv libs g) {bytes : List (BitVec 8)} (hhas : g.Has (.trampo k a) bytes)
    (now : ℤ) : Inv libs (g.free k a now) ∧ Kept libs [.trampo k a] g (g.free k a now) := by
  obtain ⟨page', hpage, i, hi, -, ha⟩ := (h.trampos.held_iff k a).mp hhas.1
  have hfrees : Frees now (g.trampos.pages k)
      (sh_trampo_free (k.kind page) now a (g.trampos.pages k)) a := by
    rw [ha]
    exact free_cases now (List.pairwise_map.mp (h.trampos.mapped.within k)) hpage hi
  have hptrs : (g.free k a now).trampos.ptrs = g.trampos.ptrs :=
    Trampos.ptrs_of_map_eq hfrees.map_ptr
  refine ⟨⟨h.trampos.freed hhas.1 hfrees, h.known, ?_⟩, ?_, ?_, fun _ _ => rfl⟩
  · rw [hptrs]
    exact h.placed
  · intro k'
    rw [hptrs]
    exact List.Subset.refl _
  · intro piece bytes' hne hold
    cases piece with
    | trampo k' b =>
        have hne' : (k', b) ≠ (k, a) := by
          rintro ⟨⟩
          exact hne (List.mem_singleton_self _)
        exact ⟨(List.mem_erase_of_ne hne').mpr hold.1, hold.2⟩
    | library b => exact hold

/-- What is known of a piece that is handed out. -/
structure Handed (g g' : Ghost page) (piece : Piece) (bytes : List (BitVec 8)) (a : ℕ) : Prop where
  has : g'.Has piece bytes
  new : ∀ bytes, ¬ g.Has piece bytes
  pos : 0 < a
  aligned : 16 ∣ a

/-- Storing zeros where there are zeros. -/
theorem memset_zero_eq_self {m : Memory} (hbound : p + n ≤ 2 ^ 64)
    (h : ByteMemory.load m (BitVec.ofNat 64 p) n = List.replicate n 0) :
    memset_zero m p n = m := by
  funext x
  unfold memset_zero
  rw [← h]
  exact copy_load m m (BitVec.ofNat 64 p) (by omega) fun _ => rfl

/-- A piece is handed out, from a page whose memory alone has changed. -/
theorem Inv.handed (hlibs : Exits.LibrariesApart libs) (h : Inv libs g)
    {t : Trampos (InstMgr.kind page)} (ht : t.Inv) {b : ℕ} {bytes : List (BitVec 8)}
    (hheld : t.held = (k, a) :: g.trampos.held)
    (hcontent : t.content = Function.update g.trampos.content (k, a) bytes)
    (hnot : (k, a) ∉ g.trampos.held) (hptrs : ∀ k, g.trampos.ptrs k ⊆ t.ptrs k)
    (hmapped : ∀ k, ∀ p ∈ t.ptrs k, p ∈ g.trampos.ptrs k ∨ Placed libs p)
    (hp : p ∈ t.ptrs k) (hlow : p ≤ b) (hhigh : b + n ≤ p + page.bytes)
    (hsame : ∀ x, ¬ Inside (BitVec.ofNat 64 b) n x → t.mem x = g.mem x) :
    Inv libs ⟨t, g.exits⟩ ∧ Kept libs [] g ⟨t, g.exits⟩ ∧
      Handed g ⟨t, g.exits⟩ (.trampo k a) bytes a := by
  have hplaced : ∀ k, ∀ p ∈ t.ptrs k, Placed libs p := fun k p hp =>
    (hmapped k p hp).elim (h.placed k p) id
  have hknown := h.known_page hlibs (hplaced k p hp) hlow hhigh hsame
  have hinv : Inv libs ⟨t, g.exits⟩ := ⟨ht, hknown, hplaced⟩
  have hhas : Has ⟨t, g.exits⟩ (.trampo k a) bytes := by
    refine ⟨?_, ?_⟩
    · show (k, a) ∈ t.held
      rw [hheld]
      exact List.mem_cons_self ..
    · show t.content (k, a) = bytes
      rw [hcontent, Function.update_self]
  refine ⟨hinv, ⟨hptrs, ?_, ?_⟩, hhas, fun _ hold => hnot hold.1, ?_, ?_⟩
  · intro piece bytes' _ hold
    cases piece with
    | trampo k' b =>
        have hne : (k', b) ≠ (k, a) := fun heq => hnot (heq ▸ hold.1)
        refine ⟨?_, ?_⟩
        · show (k', b) ∈ t.held
          rw [hheld]
          exact List.mem_cons_of_mem _ hold.1
        · show t.content (k', b) = bytes'
          rw [hcontent, Function.update_of_ne hne]
          exact hold.2
    | library b => exact hold
  · intro x hx
    exact outside_page (g := ⟨t, g.exits⟩) hp (hplaced k p hp) hlow hhigh hsame hx
  · obtain ⟨p, -, hplaced, hlow, -⟩ := hinv.exists_page hhas
    exact Nat.lt_of_lt_of_le hplaced.pos hlow
  · obtain ⟨p, -, -, -, -, haligned⟩ := hinv.exists_page hhas
    exact haligned

theorem Inv.alloc (hlibs : Exits.LibrariesApart libs) (h : Inv libs g) {locked : Bool}
    {hint range_low range_high : ℕ} {answers : TrampoAnswers} {s' : InstState page}
    {r : Option ℕ} (hfresh : ∀ p, answers.new_ptr = some p → Fresh libs (g.state locked) p)
    (hresult : trampo_alloc (g.state locked) k hint range_low range_high answers = some (s', r)) :
    ∃ g', s' = g'.state locked ∧ Inv libs g' ∧ Kept libs [] g g' ∧
      (∀ k', ∀ p ∈ g'.trampos.ptrs k', p ∈ g.trampos.ptrs k' ∨ answers.new_ptr = some p) ∧
      ∀ a, r = some a →
        Handed g g' (.trampo k a) (List.replicate (k.kind page).trampo_size 0) a ∧
          (0 < hint → hint - range_low ≤ a ∧ a ≤ hint + range_high) := by
  have hsep : ∀ {p}, answers.new_ptr = some p →
      ∀ k, ∀ q ∈ g.trampos.ptrs k, Separate p page.bytes q page.bytes := by
    intro p hmapped k q hq
    obtain ⟨page', hpage, rfl⟩ := List.mem_map.mp hq
    exact (hfresh p hmapped).pages k page' hpage
  have hguard : g.trampos.Disciplined (.alloc k hint range_low range_high answers) := by
    intro p hmapped
    exact ⟨(hfresh p hmapped).placed.bound, (hfresh p hmapped).pages⟩
  have hanswers := h.trampos.answers hguard
  have hcases := alloc_cases g.trampos.mem (g.trampos.pages k) hint range_low range_high answers
  unfold trampo_alloc at hresult
  simp only [Ghost.state] at hresult
  simp only [Trampos.Answers] at hanswers
  generalize sh_trampo_alloc (k.kind page) g.trampos.mem (g.trampos.pages k) hint range_low
    range_high answers = out at hcases hanswers hresult
  cases hcases with
  | reused htakes =>
      rename_i pages a
      obtain ⟨rfl, rfl⟩ := Prod.mk.inj (Option.some.inj hresult)
      obtain ⟨page', hpage, i, hfound, ha⟩ := htakes.exists_page
      have hend := piece_end hfound.lt
      have hptrs : ∀ k' p, p ∈ (Function.update g.trampos.pages k pages k').map TrampoPage.ptr ↔
          p ∈ g.trampos.ptrs k' := by
        intro k' p
        rw [congrFun (Trampos.ptrs_of_map_eq htakes.map_ptr) k']
      obtain ⟨hinv, hkept, hhanded⟩ := h.handed hlibs (h.trampos.reused htakes) rfl rfl
        (h.trampos.not_held htakes) (fun k' p hp => (hptrs k' p).mpr hp)
        (fun k' p hp => .inl ((hptrs k' p).mp hp))
        ((hptrs k page'.ptr).mpr (List.mem_map_of_mem hpage)) (by omega) (by omega)
        fun x hx => memset_zero_of_not_inside hx
      refine ⟨_, rfl, hinv, hkept, fun k' p hp => .inl ((hptrs k' p).mp hp), ?_⟩
      rintro a ⟨⟩
      exact ⟨hhanded, (hanswers _ rfl).2.1⟩
  | fresh hmapped hi hin =>
      rename_i new_ptr i
      obtain ⟨rfl, rfl⟩ := Prod.mk.inj (Option.some.inj hresult)
      have hpage := hfresh _ hmapped
      have hptrs : ∀ k' p, p ∈ (Function.update g.trampos.pages k
          (newPage (k.kind page) new_ptr i :: g.trampos.pages k) k').map TrampoPage.ptr ↔
            k' = k ∧ p = new_ptr ∨ p ∈ g.trampos.ptrs k' := by
        intro k' p
        by_cases hk : k' = k
        · subst hk
          rw [Function.update_self, List.map_cons, List.mem_cons]
          simp only [newPage, true_and, Trampos.ptrs]
        · rw [Function.update_of_ne hk]
          simp only [hk, false_and, false_or, Trampos.ptrs]
      have hnew : ∀ k' p, p ∈ (Function.update g.trampos.pages k
          (newPage (k.kind page) new_ptr i :: g.trampos.pages k) k').map TrampoPage.ptr →
            p ∈ g.trampos.ptrs k' ∨ answers.new_ptr = some p := by
        intro k' p hp
        rcases (hptrs k' p).mp hp with ⟨-, rfl⟩ | hp
        · exact .inr hmapped
        · exact .inl hp
      obtain ⟨hinv, hkept, hhanded⟩ := h.handed hlibs
        (h.trampos.fresh hpage.placed.bound (hsep hmapped) hi) rfl rfl (hanswers _ rfl).1
        (fun k' p hp => (hptrs k' p).mpr (.inr hp))
        (fun k' p hp => (hnew k' p hp).imp_right fun hp => (hfresh p hp).placed)
        ((hptrs k new_ptr).mpr (.inl ⟨rfl, rfl⟩)) (Nat.le_refl _) (Nat.le_refl _)
        fun x hx => memset_zero_of_not_inside hx
      refine ⟨_, rfl, hinv, hkept, hnew, ?_⟩
      rintro a ⟨⟩
      exact ⟨hhanded, (hanswers _ rfl).2.1⟩
  | failed =>
      obtain ⟨rfl, rfl⟩ := Prod.mk.inj (Option.some.inj hresult)
      refine ⟨g, ?_, h, .refl libs [] g, fun _ _ hp => .inl hp, fun a ha => (by cases ha)⟩
      rw [Function.update_eq_self]
      rfl
  | unmapped hmapped =>
      obtain ⟨rfl, rfl⟩ := Prod.mk.inj (Option.some.inj hresult)
      refine ⟨g, ?_, h, .refl libs [] g, fun _ _ hp => .inl hp, fun a ha => (by cases ha)⟩
      have hpage := hfresh _ hmapped
      have hzero := memset_zero_eq_self hpage.placed.bound hpage.zeros
      simp only [Function.update_eq_self, Ghost.state] at hzero ⊢
      rw [hzero]
  | aborted => cases hresult

/-- The gaps changed, and with them the exits in them. -/
def gapped (g : Ghost page) (m : Memory) (exits : List (ℕ × List (BitVec 8))) : Ghost page where
  trampos := { g.trampos with mem := m }
  exits := exits

theorem Inv.gapped (hlibs : Exits.LibrariesApart libs) (h : Inv libs g) (except : List Piece)
    {exits : List (ℕ × List (BitVec 8))}
    (hknown : Exits.Known (Exits.allGaps libs) m exits)
    (hsame : Exits.SameOutside (Exits.allGaps libs) g.mem m)
    (hexits : ∀ x ∈ g.exits, .library x.1 ∉ except → x ∈ exits) :
    Inv libs (g.gapped m exits) ∧ Kept libs except g (g.gapped m exits) := by
  refine ⟨⟨h.trampos.elsewhere fun k a hheld => ?_, hknown, h.placed⟩,
    fun _ => List.Subset.refl _, ?_, fun x hx => hsame x hx.gaps⟩
  · obtain ⟨p, -, hplaced, hlow, hhigh, -⟩ := h.exists_page (k := k) (a := a) ⟨hheld, rfl⟩
    have hbound := hplaced.bound
    refine load_congr (fun x hx => hsame x fun gap hgap hin => ?_) (by omega)
    have hbetween := (Exits.gapsApart (page_pos page) page.aligned hlibs).between gap hgap
    have hlt := hbetween.lt
    have hstop := hbetween.high
    have hin' := inside_part hlow hhigh hbound hx
    exact apart_ofNat hbound (by omega) (placed_gap hplaced hgap) x hin' hin
  · intro piece bytes hne hold
    cases piece with
    | trampo k a => exact hold
    | library a => exact hexits (a, bytes) hold hne

/-- A change of the memory of the program. -/
theorem Inv.stored (hlibs : Exits.LibrariesApart libs) (h : Inv libs g) (hbound : a + n ≤ 2 ^ 64)
    (hpages : ∀ k, ∀ p ∈ g.trampos.ptrs k, Separate a n p page.bytes)
    (hgaps : ∀ gap ∈ Exits.allGaps libs, Separate a n gap.start (gap.stop - gap.start))
    (hsame : ∀ x, ¬ Inside (BitVec.ofNat 64 a) n x → m x = g.mem x) :
    Inv libs (g.gapped m g.exits) := by
  refine ⟨h.trampos.elsewhere fun k b hheld => ?_, ?_, h.placed⟩
  · obtain ⟨p, hp, hplaced, hlow, hhigh, -⟩ := h.exists_page (k := k) (a := b) ⟨hheld, rfl⟩
    have hbound' := hplaced.bound
    have happ : Separate b (k.kind page).trampo_size a n :=
      (hpages k p hp).symm.mono hlow hhigh (Nat.le_refl _) (Nat.le_refl _)
    exact load_of_separate happ (by omega) hbound hsame
  · exact h.known.elsewhere (Exits.gapsApart (page_pos page) page.aligned hlibs) hbound hsame hgaps

/-! ### Exits -/

/-- The piece that an exit stands in. -/
def exitPiece (in_library : Bool) (exit_addr : ℕ) : Piece :=
  if in_library then .library exit_addr else .trampo .exit exit_addr

/-- An exit that is held has its code, and lies in the address space. -/
theorem Inv.exit (hlibs : Exits.LibrariesApart libs) (h : Inv libs g) {in_library : Bool}
    {exit : List (BitVec 8)} (hhas : g.Has (exitPiece in_library a) exit) :
    ByteMemory.load g.mem (BitVec.ofNat 64 a) 16 = exit ∧ a + 16 ≤ 2 ^ 64 := by
  cases in_library with
  | false =>
      obtain ⟨p, -, hplaced, -, hhigh, -⟩ := h.exists_page hhas
      exact ⟨h.load hhas, Nat.le_trans hhigh hplaced.bound⟩
  | true =>
      exact ⟨h.known.content (a, exit) hhas,
        h.known.bound (Exits.gapsApart (page_pos page) page.aligned hlibs) hhas⟩

theorem Inv.exit_alloc (hlibs : Exits.LibrariesApart libs) (h : Inv libs g) {locked : Bool}
    {lib : ExitLibrary page.bytes} (hlib : lib ∈ libs) {pc range_low range_high : ℕ}
    {exit : List (BitVec 8)} (hlength : exit.length = 16) (hused : exit ≠ List.replicate 16 0)
    (hpc : 0 < pc) (hrange : range_high ≤ UINTPTR_MAX - pc) {answers : TrampoAnswers}
    {library : ExitAnswers} {s' : InstState page} {r : Option (ℕ × Bool)}
    (hfresh : ∀ p, answers.new_ptr = some p → Fresh libs (g.state locked) p)
    (hresult : sh_exit_alloc (g.state locked) pc lib.toExitInfo lib.elf_loaded_by_kernel exit
      range_low range_high answers library = some (s', r)) :
    ∃ g' locked', s' = g'.state locked' ∧ Inv libs g' ∧ Kept libs [] g g' ∧
      ∀ a in_library, r = some (a, in_library) →
        Handed g g' (exitPiece in_library a) exit a ∧ pc - range_low ≤ a ∧ a ≤ pc + range_high := by
  unfold sh_exit_alloc at hresult
  split at hresult
  · cases hresult
  · rename_i s a halloc
    obtain ⟨g₁, rfl, hinv, hkept, -, hhanded⟩ := h.alloc hlibs hfresh halloc
    obtain ⟨hnew, hnear⟩ := hhanded a rfl
    obtain ⟨rfl, rfl⟩ := Prod.mk.inj (Option.some.inj hresult)
    have hfull : exit ++ (List.replicate 16 (0 : BitVec 8)).drop exit.length = exit := by
      rw [hlength, List.drop_of_length_le (by rw [List.length_replicate]), List.append_nil]
    obtain ⟨hinv', hkept', hhas⟩ := hinv.write hlibs hnew.has
      (show exit.length ≤ 16 by omega)
    change Has _ _ (exit ++ (List.replicate 16 (0 : BitVec 8)).drop exit.length) at hhas
    rw [hfull] at hhas
    refine ⟨g₁.write .exit a exit, locked, rfl, hinv', ?_, ?_⟩
    · exact ((hkept.mono (List.nil_subset _)).trans hkept').drop hnew.new
    · rintro _ _ ⟨⟩
      exact ⟨⟨hhas, hnew.new, hnew.pos, hnew.aligned⟩, hnear hpc⟩
  · rename_i s halloc
    obtain ⟨g₁, rfl, hinv, hkept, -, -⟩ := h.alloc hlibs hfresh halloc
    split at hresult
    · cases hresult
    · obtain ⟨rfl, rfl⟩ := Prod.mk.inj (Option.some.inj hresult)
      have hout : Exits.Allocated (Exits.allGaps libs) g₁.mem g₁.exits pc exit range_low
          range_high (sh_exit_alloc_in_library page.bytes g₁.mem pc lib.toExitInfo
            lib.elf_loaded_by_kernel exit range_low range_high library) :=
        Exits.Known.alloc (Exits.gapsApart (page_pos page) page.aligned hlibs) library hlength
          hused hrange (Exits.mem_allGaps hlib) hinv.known
      have hmem : (g₁.state locked).mem = g₁.mem := rfl
      rw [hmem]
      generalize sh_exit_alloc_in_library page.bytes g₁.mem pc lib.toExitInfo
        lib.elf_loaded_by_kernel exit range_low range_high library = out at hout ⊢
      cases hout with
      | exit known same near apart =>
          rename_i m' a
          obtain ⟨hinv', hkept'⟩ := hinv.gapped hlibs [] known same
            fun x hx _ => List.mem_cons_of_mem _ hx
          refine ⟨g₁.gapped m' ((a, exit) :: g₁.exits), false, rfl, hinv', hkept.trans hkept', ?_⟩
          rintro _ _ ⟨⟩
          refine ⟨⟨List.mem_cons_self .., fun bytes hold => ?_, ?_, ?_⟩, near⟩
          · have hheld : (a, bytes) ∈ g₁.exits := hkept.has _ _ List.not_mem_nil hold
            exact (List.nodup_cons.mp known.nodup).1 (List.mem_map.mpr ⟨_, hheld, rfl⟩)
          · obtain ⟨gap, hgap, hin⟩ := known.inGap _ (List.mem_cons_self ..)
            have hbetween := (Exits.gapsApart (page_pos page) page.aligned hlibs).between gap hgap
            exact Nat.lt_of_lt_of_le hbetween.low hin.low
          · exact known.aligned _ (List.mem_cons_self ..)
      | none unlocked known same hnone =>
          rename_i m' result
          obtain ⟨hinv', hkept'⟩ := hinv.gapped hlibs [] known same
            fun x hx _ => hx
          refine ⟨g₁.gapped m' g₁.exits, !unlocked, rfl, hinv', hkept.trans hkept', ?_⟩
          intro a in_library ha
          cases result with
          | exit a => exact absurd rfl (hnone a)
          | failed => cases ha
          | crashed => cases ha

/-- Unless it finds another code, it frees the exit if it can be read and written. -/
theorem exit_free_error (m : Memory) (a : ℕ) (exit : List (BitVec 8)) (answers : ExitAnswers)
    (hmatch : (sh_exit_free_in_library m a exit answers).2 ≠ .UNHOOK_EXIT_MISMATCH) :
    (sh_exit_free_in_library m a exit answers).2 = .ok ↔
      answers.faults a = false ∧ answers.mprotect a := by
  unfold sh_exit_free_in_library at hmatch ⊢
  by_cases hfaults : answers.faults a
  · simp [hfaults]
  · by_cases hload : load m (BitVec.ofNat 64 a) exit.length = exit
    · by_cases hmprotect : answers.mprotect a
      · simp [hfaults, hload, hmprotect]
      · simp [hfaults, hload, hmprotect]
    · simp [hfaults, hload] at hmatch

/-- Freeing an exit fails only if the system does not let it be overwritten. -/
theorem Inv.exit_free (hlibs : Exits.LibrariesApart libs) (h : Inv libs g) {locked : Bool}
    {in_library : Bool} {exit : List (BitVec 8)} (hhas : g.Has (exitPiece in_library a) exit)
    {library : ExitAnswers} {now : ℤ} {s' : InstState page} {e : Option InstErrno}
    (hresult : sh_exit_free (g.state locked) a in_library exit library now = some (s', e)) :
    ∃ g', s' = g'.state locked ∧ Inv libs g' ∧ Kept libs [exitPiece in_library a] g g' ∧
      (e = none ∧ (in_library → library.faults a = false ∧ library.mprotect a) ∨
        (e = some .EXIT_MPROT ∨ e = some .UNHOOK_EXIT_CRASH) ∧
          ¬ (in_library → library.faults a = false ∧ library.mprotect a)) := by
  unfold sh_exit_free at hresult
  cases in_library with
  | false =>
      obtain ⟨rfl, rfl⟩ := Prod.mk.inj (Option.some.inj hresult)
      obtain ⟨hinv, hkept⟩ := h.free hhas now
      exact ⟨_, trampo_free_eq g locked .exit a now, hinv, hkept, .inl ⟨rfl, fun h => (by cases h)⟩⟩
  | true =>
      simp only [if_true] at hresult
      split at hresult
      · cases hresult
      · obtain ⟨rfl, rfl⟩ := Prod.mk.inj (Option.some.inj hresult)
        obtain ⟨hknown, hsame, hmatch⟩ := h.known.free
          (Exits.gapsApart (page_pos page) page.aligned hlibs) hhas library
        have hmem : (g.state locked).mem = g.mem := rfl
        rw [hmem]
        have herror := exit_free_error g.mem a exit library
        generalize sh_exit_free_in_library g.mem a exit library = out
          at hknown hsame hmatch herror ⊢
        obtain ⟨hinv, hkept⟩ := h.gapped hlibs [exitPiece true a] hknown hsame
          fun x hx hne => by
            have hne' : x ≠ (a, exit) := by
              rintro rfl
              exact hne (List.mem_singleton_self _)
            split
            · exact (List.mem_erase_of_ne hne').mpr hx
            · exact hx
        refine ⟨_, rfl, hinv, hkept, ?_⟩
        simp only [forall_const]
        cases hout : out.2 with
        | ok => exact .inl ⟨rfl, (herror hmatch).mp hout⟩
        | UNHOOK_EXIT_MISMATCH => exact absurd hout hmatch
        | MPROT =>
            refine .inr ⟨.inl rfl, fun hlet => ?_⟩
            rw [(herror hmatch).mpr hlet] at hout
            cases hout
        | UNHOOK_EXIT_CRASH =>
            refine .inr ⟨.inr rfl, fun hlet => ?_⟩
            rw [(herror hmatch).mpr hlet] at hout
            cases hout

end

end Ghost

end ShadowHook
