import ConsoleBus.Control.Execution
import ConsoleBus.Proofs.Landing

/-!
Images of memory. The parts of an image fit into their regions and no two of them share one
(`Image.Laid`), so putting one part back leaves the others as they are; an image is thus put back
part by part as it was taken (`Image.contents_restoreFrom`), and bytes that no part covers stay
(`Image.byte_restoreFrom`). Taking an image and putting one back are inverse to each other
(`Image.decode_inverts_encode`).
-/

namespace ConsoleBus

namespace Image

variable {m m' : Memory} {s : Section} {parts : List Section} {image bytes : ByteArray}
  {loc : Location} {start : Nat}

/-! ### One part -/

/-- Where a part begins. -/
def origin (s : Section) : Location := ⟨s.region, s.offset⟩

theorem size_slice (fits : s.Fits) : (slice m s).size = s.len := by
  have whole : s.offset + s.len ≤ s.region.size := fits
  rw [slice, Backing.slice, ByteArray.size_extract, Backing.size_eq]
  omega

theorem read?_part (fits : s.Fits) :
    m.read? s.region s.offset s.len = some (slice m s).data.toList :=
  if_pos fits

/-- Parts are equal when their bytes are. -/
theorem slice_eq_iff (fits : s.Fits) : slice m s = slice m' s ↔
    ∀ i < s.len, m.byte ⟨s.region, s.offset + i⟩ = m'.byte ⟨s.region, s.offset + i⟩ := by
  have bytesOf (m : Memory) : (slice m s).data.toList =
      (List.range s.len).map fun i => m.byte ⟨s.region, s.offset + i⟩ :=
    (Backing.read?_eq_some_iff.1 (read?_part fits)).2
  rw [ByteArray.ext_iff, ← Array.toList_inj, bytesOf, bytesOf, List.map_inj_left]
  simp only [List.mem_range]

/-- Putting a part back is a write. -/
theorem restore_eq (m : Memory) (s : Section) (bytes : ByteArray) :
    restore m s bytes = m.write (origin s) bytes.data.toList := by
  rw [Memory.write_eq_getD_write?, Memory.write?, restore, Backing.writeArray?_eq]
  rfl

theorem slice_restore (fits : s.Fits) (size : bytes.size = s.len) :
    slice (restore m s bytes) s = bytes := by
  have count : bytes.data.toList.length = s.len := by
    rw [Array.length_toList, ByteArray.size_data, size]
  have room : (origin s).offset + bytes.data.toList.length ≤ (origin s).region.size := by
    rw [count]
    exact fits
  have read := m.read?_write room
  rw [count, ← restore_eq] at read
  rw [ByteArray.ext_iff, ← Array.toList_inj]
  exact Option.some.inj ((read?_part fits).symm.trans read)

theorem region_restore_of_ne {r : Region} (other : r ≠ s.region) :
    (restore m s bytes).region r = m.region r := by
  rw [restore_eq]
  exact m.region_write_of_ne other _

theorem byte_restore_of_not_covers (size : bytes.size = s.len)
    (clear : ¬ Memory.Covers (origin s) s.len loc) : (restore m s bytes).byte loc = m.byte loc := by
  rw [restore_eq]
  refine m.byte_write_of_not_covers ?_
  rwa [Array.length_toList, ByteArray.size_data, size]

/-! ### Parts in a row -/

/-- The bytes of some parts, one after the other. -/
def contents (m : Memory) (parts : List Section) : ByteArray :=
  parts.foldr (fun s bytes => slice m s ++ bytes) .empty

/-- The number of bytes in some parts. -/
def total (parts : List Section) : Nat := parts.foldr (fun s count => s.len + count) 0

/-- The parts fit into their regions, and no two of them share one. -/
structure Laid (parts : List Section) : Prop where
  fits : ∀ s ∈ parts, s.Fits
  apart : (parts.map Section.region).Nodup

theorem laid_sections : Laid sections := by
  constructor
  · intro s hs
    simp only [sections, List.mem_cons, List.not_mem_nil, or_false] at hs
    rcases hs with rfl | rfl | rfl <;> simp [Section.Fits, Region.size, scratchpadSize]
  · decide

theorem laid_cons : Laid (s :: parts) ↔
    s.Fits ∧ s.region ∉ parts.map Section.region ∧ Laid parts := by
  constructor
  · rintro ⟨fits, apart⟩
    obtain ⟨first, others⟩ := List.forall_mem_cons.1 fits
    obtain ⟨new, rest⟩ := List.nodup_cons.1 apart
    exact ⟨first, new, others, rest⟩
  · rintro ⟨first, new, others, rest⟩
    exact ⟨List.forall_mem_cons.2 ⟨first, others⟩, List.nodup_cons.2 ⟨new, rest⟩⟩

theorem total_cons (s : Section) (parts : List Section) :
    total (s :: parts) = s.len + total parts := rfl

theorem size_contents (laid : Laid parts) : (contents m parts).size = total parts := by
  induction parts with
  | nil => rfl
  | cons s parts ih =>
    obtain ⟨fits, -, later⟩ := laid_cons.1 laid
    rw [contents, List.foldr_cons, ByteArray.size_append, size_slice fits, total_cons]
    exact congrArg (s.len + ·) (ih later)

/-- Equal contents have equal parts. -/
theorem slice_eq_of_contents (laid : Laid parts) (same : contents m parts = contents m' parts) :
    ∀ s ∈ parts, slice m s = slice m' s := by
  induction parts with
  | nil => simp
  | cons s parts ih =>
    obtain ⟨fits, -, later⟩ := laid_cons.1 laid
    have sizes : (slice m s).size = (slice m' s).size := by rw [size_slice fits, size_slice fits]
    obtain ⟨first, rest⟩ := (ByteArray.append_eq_append_iff_of_size_eq_left sizes).1 same
    exact List.forall_mem_cons.2 ⟨first, ih later rest⟩

/-- The piece of an image that belongs to its next part. -/
theorem size_piece (room : start + total (s :: parts) ≤ image.size) :
    (image.extract start (start + s.len)).size = s.len := by
  rw [total_cons] at room
  rw [ByteArray.size_extract]
  omega

/-- A region that has no part among those put back stays. -/
theorem region_restoreFrom {r : Region} (absent : r ∉ parts.map Section.region) (start : Nat)
    (m : Memory) : (restoreFrom image start parts m).region r = m.region r := by
  induction parts generalizing start m with
  | nil => rfl
  | cons s parts ih =>
    obtain ⟨other, later⟩ := List.ne_and_not_mem_of_not_mem_cons absent
    rw [restoreFrom, ih later, region_restore_of_ne other]

/-- A byte that none of the parts covers stays. -/
theorem byte_restoreFrom (room : start + total parts ≤ image.size)
    (clear : ∀ s ∈ parts, ¬ Memory.Covers (origin s) s.len loc) (m : Memory) :
    (restoreFrom image start parts m).byte loc = m.byte loc := by
  induction parts generalizing start m with
  | nil => rfl
  | cons s parts ih =>
    obtain ⟨first, later⟩ := List.forall_mem_cons.1 clear
    have piece := size_piece room
    rw [total_cons] at room
    rw [restoreFrom, ih (by omega) later, byte_restore_of_not_covers piece first]

/-- Parts that were put back are the pieces of the image. -/
theorem contents_restoreFrom (laid : Laid parts) (room : start + total parts ≤ image.size)
    (m : Memory) : contents (restoreFrom image start parts m) parts =
      image.extract start (start + total parts) := by
  induction parts generalizing start m with
  | nil => exact ByteArray.extract_same.symm
  | cons s parts ih =>
    obtain ⟨fits, new, later⟩ := laid_cons.1 laid
    have piece := size_piece room
    rw [total_cons] at room
    -- the later parts lie in other regions
    have first : slice (restoreFrom image start (s :: parts) m) s =
        image.extract start (start + s.len) := by
      rw [restoreFrom, slice, region_restoreFrom new, ← slice, slice_restore fits piece]
    have room' : start + s.len + total parts ≤ image.size := by omega
    have rest := ih later room'
      (restore m s (image.extract start (start + s.len)))
    have split : image.extract start (start + total (s :: parts)) =
        image.extract start (start + s.len) ++
          image.extract (start + s.len) (start + s.len + total parts) := by
      rw [total_cons, ← Nat.add_assoc]
      exact ByteArray.extract_eq_extract_append_extract _ (by omega) (by omega)
    rw [split]
    exact congr (congrArg (· ++ ·) first) rest

/-! ### Whole images -/

theorem encode_eq (m : Memory) : encode m = mark ++ contents m sections := by
  have parted (parts : List Section) (front : ByteArray) :
      parts.foldl (fun image s => image ++ slice m s) front = front ++ contents m parts := by
    induction parts generalizing front with
    | nil => exact ByteArray.append_empty.symm
    | cons s parts ih =>
      rw [List.foldl_cons, ih, ByteArray.append_assoc]
      rfl
  exact parted sections mark

theorem length_eq : length = mark.size + total sections := by decide

theorem size_encode (m : Memory) : (encode m).size = length := by
  rw [encode_eq, ByteArray.size_append, size_contents laid_sections, length_eq]

/-- A byte string with the length of every image and the mark in front. -/
def Genuine (image : ByteArray) : Prop := image.size = length ∧ ∃ body, image = mark ++ body

theorem isImage_iff : isImage image = true ↔ Genuine image := by
  have same : (image.extract 0 mark.size == mark) = true ↔ image.extract 0 mark.size = mark := by
    change ((image.extract 0 mark.size).data == mark.data) = true ↔ _
    rw [beq_iff_eq, ByteArray.ext_iff]
  rw [isImage, Bool.and_eq_true, beq_iff_eq, same]
  refine and_congr_right fun size => ⟨fun marked => ⟨image.extract mark.size image.size, ?_⟩, ?_⟩
  · have long : mark.size ≤ image.size := by
      rw [size, length_eq]
      exact Nat.le_add_right _ _
    calc image = image.extract 0 image.size := ByteArray.extract_zero_size.symm
      _ = image.extract 0 mark.size ++ image.extract mark.size image.size :=
        ByteArray.extract_eq_extract_append_extract _ (Nat.zero_le _) long
      _ = mark ++ image.extract mark.size image.size := by rw [marked]
  · rintro ⟨body, rfl⟩
    exact ByteArray.extract_append_eq_left rfl

theorem genuine_encode (m : Memory) : Genuine (encode m) := ⟨size_encode m, _, encode_eq m⟩

theorem decode_of_genuine (genuine : Genuine image) (m : Memory) :
    decode image m = .ok (restoreFrom image mark.size sections m) :=
  if_pos (isImage_iff.2 genuine)

theorem decode_of_not_genuine (foreign : ¬ Genuine image) (m : Memory) :
    ∃ text, decode image m = .error ⟨.invalidData, text⟩ :=
  ⟨_, if_neg fun whole => foreign (isImage_iff.1 whole)⟩

/-- An image that was put back is taken again as it was. -/
theorem encode_restoreFrom (genuine : Genuine image) (m : Memory) :
    encode (restoreFrom image mark.size sections m) = image := by
  obtain ⟨size, body, rfl⟩ := genuine
  rw [length_eq] at size
  rw [encode_eq, contents_restoreFrom laid_sections (Nat.le_of_eq size.symm), ← size,
    ByteArray.extract_append_eq_right rfl ByteArray.size_append]

/-- Memories with the same image agree on the parts. -/
theorem byte_eq_of_encode (same : encode m = encode m') (hs : s ∈ sections) :
    ∀ i < s.len, m.byte ⟨s.region, s.offset + i⟩ = m'.byte ⟨s.region, s.offset + i⟩ := by
  rw [encode_eq, encode_eq, ByteArray.append_right_inj] at same
  exact (slice_eq_iff (laid_sections.fits s hs)).1 (slice_eq_of_contents laid_sections same s hs)

/-- What no part of an image covers an image leaves alone. -/
theorem byte_decoded (genuine : Genuine image)
    (clear : ∀ s ∈ sections, ¬ Memory.Covers (origin s) s.len loc) (m : Memory) :
    (restoreFrom image mark.size sections m).byte loc = m.byte loc :=
  byte_restoreFrom (Nat.le_of_eq (length_eq.symm.trans genuine.1.symm)) clear m

/-- A memory that has the image of one memory, and the bytes of another one where images hold none,
has these regions. -/
theorem regions_of_encode {m₁ m₂ : Memory} (same : encode m = encode m₁)
    (kept : ∀ loc, (∀ s ∈ sections, ¬ Memory.Covers (origin s) s.len loc) →
      m.byte loc = m₂.byte loc) :
    m.ram = m₁.ram ∧ m.parallel = m₁.parallel ∧ m.bios = m₂.bios ∧
      (∀ i < scratchpadSize, m.hardware.get i = m₁.hardware.get i) ∧
      ∀ i, scratchpadSize ≤ i → m.hardware.get i = m₂.hardware.get i := by
  have held (r : Region) (len : Nat) (part : ⟨r, 0, len⟩ ∈ sections) (i : Nat) (hi : i < len) :
      m.byte ⟨r, i⟩ = m₁.byte ⟨r, i⟩ := by
    have here := byte_eq_of_encode same part i hi
    rwa [Nat.zero_add] at here
  refine ⟨?_, ?_, ?_, ?_, ?_⟩
  · exact Backing.ext_get (held .ram _ (by simp [sections]))
  · exact Backing.ext_get (held .parallel _ (by simp [sections]))
  · refine Backing.ext_get fun i _ => kept ⟨.bios, i⟩ ?_
    simp [sections, Memory.Covers, origin]
  · exact held .hardware _ (by simp [sections])
  · intro i hi
    refine kept ⟨.hardware, i⟩ ?_
    simpa [sections, Memory.Covers, origin] using hi

/-- A load that finds something else than an image fails and leaves the machine as it was. -/
theorem perform_of_not_genuine (foreign : ¬ Genuine image) {store : ImageStore} {path : Path}
    {files : FileTree} (found : files.read (store.resolve path) = .ok image) (machine : Machine) :
    (∃ e, (ImageStore.asStateStore.perform store ⟨.load, path⟩ machine files).outcome = .error e) ∧
      (ImageStore.asStateStore.perform store ⟨.load, path⟩ machine files).machine = machine := by
  obtain ⟨text, refused⟩ := decode_of_not_genuine foreign machine.bus.memory
  have failed : store.load path machine.bus.memory files = .error ⟨.invalidData, text⟩ := by
    simp only [ImageStore.load, found, refused]
  simp [ImageStore.asStateStore, failed]

/-- Images restore what they hold and nothing else. The image of one memory can be put into any
other, which then has the first one's RAM, parallel port and scratchpad, and its own hardware
registers and ROM. A byte string with the length and the mark of an image can be put into any
memory, whose image it then is. Any other byte string is refused, and a load that finds one leaves
the machine as it was. -/
theorem decode_inverts_encode :
    (∀ m₁ m₂ : Memory, ∃ m, decode (encode m₁) m₂ = .ok m ∧
        m.ram = m₁.ram ∧ m.parallel = m₁.parallel ∧ m.bios = m₂.bios ∧
        (∀ i < scratchpadSize, m.hardware.get i = m₁.hardware.get i) ∧
        ∀ i, scratchpadSize ≤ i → m.hardware.get i = m₂.hardware.get i) ∧
      (∀ image m, Genuine image → ∃ m', decode image m = .ok m' ∧ encode m' = image) ∧
      (∀ image, ¬ Genuine image →
        (∀ m, ∃ text, decode image m = .error ⟨.invalidData, text⟩) ∧
        ∀ (store : ImageStore) (path : Path) (machine : Machine) (files : FileTree),
          files.read (store.resolve path) = .ok image →
          let result := ImageStore.asStateStore.perform store ⟨.load, path⟩ machine files
          (∃ e, result.outcome = .error e) ∧ result.machine = machine) := by
  refine ⟨fun m₁ m₂ => ?_, fun image m genuine => ?_, fun image foreign => ⟨?_, ?_⟩⟩
  · have genuine := genuine_encode m₁
    exact ⟨_, decode_of_genuine genuine m₂, regions_of_encode (encode_restoreFrom genuine m₂)
      fun loc clear => byte_decoded genuine clear m₂⟩
  · exact ⟨_, decode_of_genuine genuine m, encode_restoreFrom genuine m⟩
  · exact decode_of_not_genuine foreign
  · intro store path machine files found
    exact perform_of_not_genuine foreign found machine

/-- Memory filled with one byte goes into memory filled with another, and five bytes go nowhere. -/
theorem filled_memory_restored :
    let junk : ByteArray := ⟨#[0x68, 0x65, 0x6c, 0x6c, 0x6f]⟩
    (∃ m, decode (encode (.filled fun _ => 7)) .zeroed = .ok m ∧
        m.hardware.get 0x3ff = 7 ∧ m.hardware.get 0x400 = 0 ∧ m.bios.get 0 = 0) ∧
      ¬ Genuine junk ∧ ∃ text, decode junk .zeroed = .error ⟨.invalidData, text⟩ := by
  intro junk
  obtain ⟨restores, -, refuses⟩ := decode_inverts_encode
  have foreign : ¬ Genuine junk := fun genuine => absurd genuine.1 (by decide)
  obtain ⟨m, read, -, -, bios, pad, registers⟩ := restores (.filled fun _ => 7) .zeroed
  refine ⟨⟨m, read, ?_, ?_, ?_⟩, foreign, (refuses junk foreign).1 .zeroed⟩
  · rw [pad _ (by decide)]
    exact Backing.get_filled _ _
  · rw [registers _ (by decide)]
    exact Backing.get_filled _ _
  · rw [bios]
    exact Backing.get_filled _ _

end Image

end ConsoleBus
