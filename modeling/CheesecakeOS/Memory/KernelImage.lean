import CheesecakeOS.Memory.PmemRuns
/-!
# The loaded kernel image and the page allocator

`linker.ld` lays the image out from 0x100000 upward, one section after the
other. `ck_pmem_init` reserves the memory below 0x180000 and says of the
kernel's megabyte "already marked above". But `.bss` alone holds 256 page
tables, so the image ends past 2 MB and every allocating run gets a page of
it: `image_kept_iff`.
-/
open Lib

namespace CheesecakeOS.Image
open Pmem

/-- An output section of the linker script. -/
structure Section where
  size : Nat
  align : Nat

/-- The location counter rounded up to a multiple of `a`. -/
def alignUp (dot a : Nat) : Nat := if a = 0 then dot else (dot + a - 1) / a * a

theorem le_alignUp (dot a : Nat) : dot ≤ alignUp dot a := by
  by_cases ha : a = 0
  · rw [alignUp, if_pos ha]
  · have hlt := Nat.lt_div_mul_add (a := dot + a - 1) (Nat.pos_of_ne_zero ha)
    rw [alignUp, if_neg ha]
    omega

/-- Placing a section moves the location counter to its end. -/
def place (dot : Nat) (s : Section) : Nat := alignUp dot s.align + s.size

/-- The sections the script keeps. -/
structure KernelImage where
  multiboot2 : Section
  text : Section
  rodata : Section
  data : Section
  bss : Section

def imageBase : Nat := 0x100000

/-- Where the location counter stands after `SECTIONS`. -/
def KernelImage.imageEnd (img : KernelImage) : Nat :=
  [img.multiboot2, img.text, img.rodata, img.data, img.bss].foldl place imageBase

/-- Sizes of static objects the sources put in `.bss`: the boot stack,
`ck_page_directory`, `ck_page_tables`, `ck_pmem_bitmap`. -/
def bssObjects : List Nat := [16384, 1024 * 4, 256 * 1024 * 4, CK_BITMAP_SIZE]

def KernelImage.HoldsStatics (img : KernelImage) : Prop := bssObjects.sum ≤ img.bss.size

/-- The page at `a` shares a byte with the image. -/
def Overlaps (img : KernelImage) (a : U32) : Prop :=
  a.toNat < img.imageEnd ∧ imageBase < a.toNat + CK_PAGE_SIZE

theorem le_place (dot : Nat) (s : Section) : dot + s.size ≤ place dot s :=
  Nat.add_le_add_right (le_alignUp dot s.align) _

/-- An image that holds the page tables does not end below 0x180000. -/
theorem reserved_lt_imageEnd {img : KernelImage} (h : img.HoldsStatics) :
    reservedPages * CK_PAGE_SIZE < img.imageEnd := by
  have h1 := le_place imageBase img.multiboot2
  have h2 := le_place (place imageBase img.multiboot2) img.text
  have h3 := le_place (place (place imageBase img.multiboot2) img.text) img.rodata
  have h4 := le_place (place (place (place imageBase img.multiboot2) img.text) img.rodata) img.data
  have h5 := le_place (place (place (place (place imageBase img.multiboot2) img.text) img.rodata) img.data) img.bss
  have hs : bssObjects.sum = 1077248 := by decide
  simp only [KernelImage.HoldsStatics, KernelImage.imageEnd, List.foldl_cons, List.foldl_nil, imageBase,
    reservedPages, CK_PAGE_SIZE] at *
  omega

/-- Only pages handed out before are freed, maybe more than once. -/
def FreesReturned (r : Run) : PmemOp → Prop
  | .alloc => True
  | .free a => a ∈ r.ret

/-- Everything handed out lies above the reserved pages. -/
def HandedAbove (r : Run) : Prop := Reserved r.mem ∧ ∀ a ∈ r.ret, reservedPages * CK_PAGE_SIZE ≤ a.toNat

theorem handedAbove_step (r : Run) (op : PmemOp) (h : HandedAbove r) (hop : FreesReturned r op) :
    HandedAbove (r.step op) := by
  obtain ⟨hr, hret⟩ := h
  cases op with
  | alloc =>
    refine ⟨reserved_step hr (show AboveReserved .alloc from trivial), ?_⟩
    have habove := hr.kept.above
    rcases he : ck_pmem_alloc_page r.mem with ⟨mem, b⟩
    rw [he] at habove
    rw [step_alloc he]
    by_cases h0 : b = 0#32
    · rw [if_pos h0]
      exact hret
    · rw [if_neg h0]
      intro a ha
      rcases List.mem_cons.1 ha with rfl | ha
      · exact habove h0
      · exact hret a ha
  | free a => exact ⟨reserved_step hr (show AboveReserved (.free a) from fun _ => hret a hop), hret⟩

theorem mem_ret_step {r : Run} {a : U32} (h : a ∈ r.ret) (op : PmemOp) : a ∈ (r.step op).ret := by
  cases op with
  | alloc =>
    rcases he : ck_pmem_alloc_page r.mem with ⟨mem, b⟩
    rw [step_alloc he]
    split
    · exact h
    · exact List.mem_cons_of_mem _ h
  | free b => exact h

theorem mem_ret_run {a : U32} (ops : List PmemOp) : ∀ r : Run, a ∈ r.ret → a ∈ (ops.foldl Run.step r).ret := by
  induction ops with
  | nil => intro r h; exact h
  | cons op ops ih => intro r h; exact ih _ (mem_ret_step h op)

/-- A run that allocates starts with an allocation, which returns 0x180000. -/
theorem first_page_returned {s₀ : Pmem} {ops : List PmemOp}
    (h : Allowed Run.step FreesReturned (.start s₀) ops) (hm : .alloc ∈ ops) : 0x180000#32 ∈ (run s₀ ops).ret := by
  rcases ops with _ | ⟨op, ops⟩
  · cases hm
  · obtain ⟨h0, -⟩ := (allowed_cons _).1 h
    cases op with
    | alloc =>
      apply mem_ret_run ops _
      simp [Run.step, Run.start, alloc_init]
    | free a => cases h0

theorem ret_of_no_alloc (ops : List PmemOp) (hm : .alloc ∉ ops) : ∀ r : Run, (ops.foldl Run.step r).ret = r.ret := by
  induction ops with
  | nil => intro r; rfl
  | cons op ops ih =>
    intro r
    rw [List.foldl_cons, ih (fun h => hm (List.mem_cons_of_mem _ h))]
    cases op with
    | alloc => exact absurd List.mem_cons_self hm
    | free a => rfl

/-- No page a run hands out overlaps the image exactly when the image ends at
or below 0x180000 or the run never allocates. An image with the kernel's own
static objects ends above. -/
theorem image_kept_iff (img : KernelImage) (s₀ : Pmem) (ops : List PmemOp)
    (h : Allowed Run.step FreesReturned (.start s₀) ops) :
    ((∀ a ∈ (run s₀ ops).ret, ¬ Overlaps img a) ↔
      img.imageEnd ≤ reservedPages * CK_PAGE_SIZE ∨ .alloc ∉ ops) ∧
    (img.HoldsStatics → reservedPages * CK_PAGE_SIZE < img.imageEnd) := by
  refine ⟨⟨fun hno => ?_, ?_⟩, reserved_lt_imageEnd⟩
  · by_contra hn
    rw [not_or, not_not, Nat.not_le] at hn
    refine hno _ (first_page_returned h hn.2) ⟨hn.1, ?_⟩
    simp [imageBase, CK_PAGE_SIZE]
  · rintro (hle | hna) a ha
    · have hi := run_inv Run.step HandedAbove handedAbove_step ops (.start s₀)
        ⟨reserved_init s₀, by simp [Run.start]⟩ h
      have := hi.2 a ha
      exact fun ho => absurd ho.1 (by omega)
    · have hr := ret_of_no_alloc ops hna (.start s₀)
      rw [run, hr] at ha
      cases ha

/-- The smallest image the linker can make: nothing but the static objects. -/
def smallestImage : KernelImage := ⟨⟨0, 8⟩, ⟨0, 16⟩, ⟨0, 4⟩, ⟨0, 4⟩, ⟨bssObjects.sum, 4096⟩⟩

theorem image_kept_iff_one_alloc :
    smallestImage.HoldsStatics ∧ Allowed Run.step FreesReturned (.start .zero) [.alloc] ∧
      ((∀ a ∈ (run .zero [.alloc]).ret, ¬ Overlaps smallestImage a) ↔
        smallestImage.imageEnd ≤ reservedPages * CK_PAGE_SIZE ∨ .alloc ∉ [PmemOp.alloc]) :=
  have h : Allowed Run.step FreesReturned (.start .zero) [.alloc] := (allowed_cons _).2 ⟨trivial, allowed_nil _⟩
  ⟨Nat.le_refl _, h, (image_kept_iff smallestImage .zero [.alloc] h).1⟩

/-- The first page handed out after boot lies inside the image, however small
the rest of the kernel is. -/
theorem first_page_in_image :
    smallestImage.HoldsStatics ∧ Allowed Run.step FreesReturned (.start .zero) [.alloc] ∧
      ¬ ∀ a ∈ (run .zero [.alloc]).ret, ¬ Overlaps smallestImage a := by
  have h : Allowed Run.step FreesReturned (.start .zero) [.alloc] := (allowed_cons _).2 ⟨trivial, allowed_nil _⟩
  refine ⟨Nat.le_refl _, h, fun hno => hno _ (first_page_returned h (by simp)) ⟨?_, ?_⟩⟩
  · exact reserved_lt_imageEnd (Nat.le_refl _)
  · simp [imageBase, CK_PAGE_SIZE]

end CheesecakeOS.Image
