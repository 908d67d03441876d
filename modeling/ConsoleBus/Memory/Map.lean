import ConsoleBus.Memory.Error

/-!
The address map. An address is classified first: the pages of the hardware window split into the
scratchpad, which is reached directly, and the hardware registers, which have no bytes of their own.
Every other address goes through a page table, which sends each 64 KiB page to a place in a region
or nowhere. `canonical` folds the aliases of an address that hooks do not tell apart.
-/

namespace ConsoleBus

/-- The number of address bits inside a page. -/
def pageShift : Nat := 16

/-- The number of bytes in a page. -/
def pageSize : Nat := 0x10000

/-- The number of pages in the address space. -/
def pageCount : Nat := 0x10000

/-- The page of an address. -/
def pageOf (addr : Address) : Nat := addr.toNat / pageSize

/-- The position of an address in its page. -/
def pageOffset (addr : Address) : Nat := addr.toNat % pageSize

/-- The pages of the hardware window, one for each segment. -/
def hardwarePages : List Nat := [0x1f80, 0x9f80, 0xbf80]

/-- The cache-control register. Its page is in no table, so that the bus sees its stores as
unmapped. -/
def cacheControl : Address := 0xfffe0130

/-- How an address is served before any page table is asked. -/
inductive AddressClass where
  | scratchpad (offset : Nat)
  | hardwareRegister
  | table
  deriving DecidableEq, Repr

def classify (addr : Address) : AddressClass :=
  if pageOf addr ∈ hardwarePages then
    if pageOffset addr < scratchpadSize then .scratchpad (pageOffset addr) else .hardwareRegister
  else .table

/-- The length of the window in which RAM appears four times over. -/
def ramWindow : Nat := 0x800000

/-- The address that stands for `addr` when hooks are matched: the segment bits are dropped, and the
four copies of RAM become one. -/
def canonical (addr : Address) : Address :=
  let physical := addr.toNat % 0x20000000
  UInt32.ofNat (if physical < ramWindow then physical % Region.ram.size else physical)

theorem toNat_canonical (addr : Address) :
    (canonical addr).toNat =
      if addr.toNat % 0x20000000 < ramWindow then addr.toNat % 0x20000000 % Region.ram.size
      else addr.toNat % 0x20000000 := by
  have h : addr.toNat < 4294967296 := addr.toNat_lt
  unfold canonical
  rw [UInt32.toNat_ofNat']
  simp only [ramWindow, Region.size]
  by_cases low : addr.toNat % 0x20000000 < 0x800000
  · simp only [low, if_true]
    omega
  · simp only [low, if_false]
    omega

/-- Where a page lies: a region, and the offset of the page's first byte in it. -/
structure PageEntry where
  region : Region
  base : Nat
  deriving DecidableEq, Repr

/-- The first pages of the three RAM windows: direct, cached and uncached. -/
def ramPages : List Nat := [0x0000, 0x8000, 0xa000]

/-- The number of pages in a RAM window: the two megabytes of RAM, four times over. -/
def ramPageCount : Nat := 0x80

/-- Whether a page is in one of the RAM windows. -/
def isRamPage (page : Nat) : Bool :=
  ramPages.any fun first => first ≤ page && page < first + ramPageCount

/-- The place of a page in one of the RAM windows. All three windows start at a multiple of RAM's 32
pages, so the page number alone decides it. -/
def ramEntry (page : Nat) : PageEntry := ⟨.ram, page % 0x20 * pageSize⟩

/-- A table that sends each page somewhere or nowhere. The RAM windows are mapped or blank as a
whole, and beside them stand the pages that were set one by one, each of them once. -/
structure PageTable where
  ramMapped : Bool
  pages : List (Nat × Option PageEntry)
  distinct : (pages.map Prod.fst).Nodup

namespace PageTable

/-- Where a page is sent. -/
def entry (t : PageTable) (page : Nat) : Option PageEntry :=
  match t.pages.lookup page with
  | some entry => entry
  | none => if t.ramMapped && isRamPage page then some (ramEntry page) else none

/-- The pages set one by one, without some of them. -/
def pagesBut (t : PageTable) (gone : Nat → Bool) : List (Nat × Option PageEntry) :=
  t.pages.filter fun p => !gone p.1

theorem nodup_pagesBut (t : PageTable) (gone : Nat → Bool) :
    ((t.pagesBut gone).map Prod.fst).Nodup :=
  (List.filter_sublist.map Prod.fst).nodup t.distinct

theorem notMem_pagesBut (t : PageTable) {gone : Nat → Bool} {page : Nat} (h : gone page = true) :
    page ∉ (t.pagesBut gone).map Prod.fst := by
  intro hm
  obtain ⟨p, hp, rfl⟩ := List.mem_map.1 hm
  have := (List.mem_filter.1 hp).2
  simp [h] at this

theorem lookup_pagesBut (t : PageTable) (gone : Nat → Bool) (page : Nat) :
    (t.pagesBut gone).lookup page = if gone page then none else t.pages.lookup page := by
  unfold pagesBut
  induction t.pages with
  | nil => simp
  | cons p rest ih =>
    obtain ⟨q, e⟩ := p
    by_cases hq : page = q
    · subst hq
      by_cases hg : gone page = true
      · simp [hg, ih]
      · simp [hg]
    · have hne : (page == q) = false := by simpa using hq
      by_cases hg : gone q = true
      · simp [hg, ih, hne, List.lookup_cons]
      · simp [hg, ih, hne, List.lookup_cons]

/-- The table that maps nothing. -/
def empty : PageTable := ⟨false, [], List.nodup_nil⟩

/-- The table with one page changed. -/
def set (t : PageTable) (page : Nat) (entry : Option PageEntry) : PageTable :=
  ⟨t.ramMapped, (page, entry) :: t.pagesBut (· == page),
    List.nodup_cons.2 ⟨t.notMem_pagesBut (by simp), t.nodup_pagesBut _⟩⟩

/-- Maps the RAM windows. -/
def installRam (t : PageTable) : PageTable := ⟨true, t.pagesBut isRamPage, t.nodup_pagesBut _⟩

/-- Blanks the RAM windows. -/
def clearRam (t : PageTable) : PageTable := ⟨false, t.pagesBut isRamPage, t.nodup_pagesBut _⟩

/-- The page of the parallel port. -/
def parallelPage : Nat := 0x1f00

/-- The first pages of the three ROM windows. -/
def biosPages : List Nat := [0x1fc0, 0x9fc0, 0xbfc0]

/-- The number of pages in a ROM window. -/
def biosPageCount : Nat := 8

/-- Whether a page is in one of the ROM windows. -/
def isBiosPage (page : Nat) : Bool :=
  biosPages.any fun first => first ≤ page && page < first + biosPageCount

/-- The place of a page in one of the ROM windows, which all start at a multiple of eight pages. -/
def biosEntry (page : Nat) : PageEntry := ⟨.bios, page % 8 * pageSize⟩

/-- Maps the ROM windows. -/
def installBios (t : PageTable) : PageTable :=
  (biosPages.flatMap fun first => (List.range biosPageCount).map (first + ·)).foldl
    (fun t page => t.set page (some (biosEntry page))) t

/-- Maps the parallel port and the hardware window. -/
def installWindows (t : PageTable) : PageTable :=
  (t.set parallelPage (some ⟨.parallel, 0⟩)).set 0x1f80 (some ⟨.hardware, 0⟩)

/-- The table that stores go through at power-on. -/
def powerOnWrite : PageTable := empty.installRam.installWindows

/-- The table that reads go through, which also sees the ROM. It never changes. -/
def powerOnRead : PageTable := powerOnWrite.installBios

/-- The location of an address, if its page is mapped. Offsets are words of 32 bits. -/
def resolve (t : PageTable) (addr : Address) : Option Location :=
  (t.entry (pageOf addr)).map fun e => ⟨e.region, (e.base + pageOffset addr) % 0x100000000⟩

/-- The location of an address, the scratchpad included. -/
def locate (t : PageTable) (addr : Address) : Except MemoryError Location :=
  match classify addr with
  | .scratchpad offset => .ok ⟨.hardware, offset⟩
  | .hardwareRegister => .error (.noBacking addr)
  | .table =>
    match t.resolve addr with
    | some loc => .ok loc
    | none => .error (.unmapped addr)

/-- The place of `len` bytes from `addr` on, all in one region. -/
def resolveRange (t : PageTable) (addr : Address) (len : Nat) : Except MemoryError Range :=
  match t.locate addr with
  | .error e => .error e
  | .ok loc =>
    if loc.offset + len ≤ loc.region.size then .ok ⟨loc.region, loc.offset, len⟩
    else .error (.outOfBounds addr len loc.region)

/-- The number of pages that the table maps: those set one by one, and those of the RAM windows that
are not among them. -/
def mappedPages (t : PageTable) : Nat :=
  t.pages.countP (fun p => p.2.isSome) +
    if t.ramMapped then ramPages.length * ramPageCount - t.pages.countP fun p => isRamPage p.1
    else 0

@[simp] theorem entry_empty (p : Nat) : empty.entry p = none := rfl

@[simp] theorem entry_set (t : PageTable) (page : Nat) (e : Option PageEntry) (p : Nat) :
    (t.set page e).entry p = if p = page then e else t.entry p := by
  by_cases h : p = page
  · subst h
    simp [entry, set]
  · have hne : (p == page) = false := by simpa using h
    simp [entry, set, List.lookup_cons, hne, h, lookup_pagesBut]

@[simp] theorem entry_installRam (t : PageTable) (p : Nat) :
    t.installRam.entry p = if isRamPage p then some (ramEntry p) else t.entry p := by
  by_cases h : isRamPage p = true <;> simp [entry, installRam, lookup_pagesBut, h]

@[simp] theorem entry_clearRam (t : PageTable) (p : Nat) :
    t.clearRam.entry p = if isRamPage p then none else t.entry p := by
  by_cases h : isRamPage p = true <;> simp [entry, clearRam, lookup_pagesBut, h]

theorem entry_foldl_set (f : Nat → PageEntry) (pages : List Nat) (t : PageTable) (p : Nat) :
    (pages.foldl (fun t page => t.set page (some (f page))) t).entry p =
      if p ∈ pages then some (f p) else t.entry p := by
  induction pages generalizing t with
  | nil => simp
  | cons page rest ih =>
    rw [List.foldl_cons, ih, entry_set]
    by_cases h : p = page
    · subst h
      simp
    · simp [h]

@[simp] theorem entry_installBios (t : PageTable) (p : Nat) :
    t.installBios.entry p = if isBiosPage p then some (biosEntry p) else t.entry p := by
  have h : (p ∈ biosPages.flatMap fun first => (List.range biosPageCount).map (first + ·)) ↔
      isBiosPage p = true := by
    simp only [List.mem_flatMap, List.mem_map, List.mem_range, isBiosPage, List.any_eq_true,
      Bool.and_eq_true, decide_eq_true_eq]
    constructor
    · rintro ⟨first, hf, i, hi, rfl⟩
      exact ⟨first, hf, by omega, by omega⟩
    · rintro ⟨first, hf, h₁, h₂⟩
      exact ⟨first, hf, p - first, by omega, by omega⟩
  rw [installBios, entry_foldl_set]
  by_cases hp : isBiosPage p = true
  · rw [if_pos (h.2 hp), if_pos hp]
  · rw [if_neg fun hm => hp (h.1 hm), if_neg hp]

end PageTable

end ConsoleBus
