import EdgeClient.Proofs.Message.SelfDelimiting
import EdgeClient.Proofs.Wire.Rounds

/-!
# Declared counts

A server may declare up to four billion entries in a payload of a few bytes. It gains nothing by it.
There are four kinds of lists (`ServerMessage.Listing`), and five places where one begins with the
number of its entries (`Listing.CountFollows`). If the bytes behind the number have no room for so
many, decoding fails for want of bytes, and which number it was makes no difference. The names of
extensions are texts, so there an illegible name may come first. And no loop over a list goes round
more often than once for each entry that there is room for, and once more.
-/

namespace EdgeClient

/-! ## Sizes of entries -/

theorem Layout.length_of_bytes {bs form : Bytes} (h : bytes bs form) : 4 ≤ form.length := by
  rw [h.2, Bytes.length_field]
  exact Nat.le_add_right _ _

theorem Layout.length_of_keyed {entry : UInt16 × Bytes} {form : Bytes} (h : keyed entry form) :
    6 ≤ form.length := by
  obtain ⟨field, hfield, rfl⟩ := h
  have hvalue := length_of_bytes hfield
  rw [List.length_append, BigEndian.length_encode]
  omega

theorem Layout.length_of_extension {name : String} {form : Bytes} (h : extension name form) :
    6 ≤ form.length := by
  obtain ⟨front, headers, back, hname, ⟨-, body, -, rfl⟩, rfl⟩ := h
  have hfront := length_of_bytes hname
  rw [List.length_append, List.length_append, BigEndian.length_encode]
  omega

namespace ServerMessage

/-! ## Lists -/

/-- The lists that stand behind their number. -/
inductive Listing where
  /-- The ways of proving who one is that a demand for a proof leaves open. -/
  | methods
  /-- The headers of a message, or of an extension. -/
  | headers
  /-- The extensions that come with a version. -/
  | extensions
  /-- What an error says about itself. -/
  | attributes
  deriving DecidableEq, Repr

namespace Listing

/-- What an entry is read as; headers are skipped. -/
def Entry : Listing → Type
  | .methods => Bytes
  | .headers => Unit
  | .extensions => String
  | .attributes => UInt16 × Bytes

/-- What a whole list is read as. -/
def Entries : Listing → Type
  | .methods => List Bytes
  | .headers => Unit
  | .extensions => List String
  | .attributes => List (UInt16 × Bytes)

/-- Reads an entry. -/
def readEntry : (list : Listing) → Read list.Entry
  | .methods => Read.bytesField
  | .headers => skipHeader
  | .extensions => readExtension
  | .attributes => ServerError.readAttribute

/-- The loop over the entries. -/
def readEntries : (list : Listing) → (count : Nat) → Read list.Entries
  | .methods, count => Read.replicate count Read.bytesField
  | .headers, count => Read.repeatUnit skipHeader count
  | .extensions, count => Read.replicate count readExtension
  | .attributes, count => Read.replicate count ServerError.readAttribute

/-- The forms of an entry. -/
def layout : (list : Listing) → Layout list.Entry
  | .methods => Layout.bytes
  | .headers => Layout.keyed.dropped
  | .extensions => Layout.extension
  | .attributes => Layout.keyed

/-- The width of the number of entries. -/
def countWidth : Listing → Nat
  | .methods => 4
  | .headers | .extensions | .attributes => 2

/-- How many bytes an entry takes at least: a length field, and but for methods a key in front of it
or a number behind it. -/
def minEntrySize : Listing → Nat
  | .methods => 4
  | .headers | .extensions | .attributes => 6

/-- Whether payloads of the type `tag` that start with `front` go on with the number of entries of a
list. Headers stand in messages of their own and in every extension, there behind whole extensions
and the name of this one. -/
inductive CountFollows : Listing → (tag : UInt8) → (front : Bytes) → Prop where
  | methods : CountFollows .methods authenticationTag (BigEndian.encode 4 0xa)
  | headers : CountFollows .headers readyForCommandTag []
  | extensions (major minor : UInt16) :
      CountFollows .extensions handshakeTag
        (BigEndian.encode 2 major.toNat ++ BigEndian.encode 2 minor.toNat)
  | extensionHeaders (major minor count : UInt16) {names : List String} {name : String}
      {form field : Bytes} (hnames : Layout.extension.sequence names form)
      (hcount : names.length < count.toNat) (hname : Layout.text name field) :
      CountFollows .headers handshakeTag
        (BigEndian.encode 2 major.toNat ++ BigEndian.encode 2 minor.toNat ++
          BigEndian.encode 2 count.toNat ++ form ++ field)
  | attributes (severity : UInt8) (code : UInt32) {text : String} {field : Bytes}
      (htext : Layout.text text field) :
      CountFollows .attributes errorTag (severity :: BigEndian.encode 4 code.toNat ++ field)

end Listing

/-- Whether extensions come to one whose name is there and is no text. -/
def HasIllegibleName (window : Bytes) : Prop :=
  ∃ names form rest, Layout.extension.sequence names form ∧ window = form ++ rest ∧
    Read.IsIllegible rest

namespace Listing

theorem reads_readEntry (list : Listing) : list.readEntry.Reads list.layout := by
  cases list with
  | methods => exact Read.reads_bytesField
  | headers => exact reads_skipHeader
  | extensions => exact reads_readExtension
  | attributes => exact ServerError.reads_readAttribute

theorem minEntrySize_pos (list : Listing) : 0 < list.minEntrySize := by
  cases list <;> decide

theorem minEntrySize_le (list : Listing) (entry : list.Entry) (form : Bytes)
    (h : list.layout entry form) : list.minEntrySize ≤ form.length := by
  cases list with
  | methods => exact Layout.length_of_bytes h
  | headers =>
    obtain ⟨header, hheader⟩ := h
    exact Layout.length_of_keyed hheader
  | extensions => exact Layout.length_of_extension h
  | attributes => exact Layout.length_of_keyed h

/-! ## The loops -/

/-- What the loop makes of the entries. -/
def gather : (list : Listing) → List list.Entry → list.Entries
  | .methods, entries => entries
  | .headers, _ => ()
  | .extensions, entries => entries
  | .attributes, entries => entries

theorem readEntries_eq (list : Listing) (count : Nat) (window : Bytes) :
    list.readEntries count window = (Read.replicate count list.readEntry >>= fun entries =>
      pure (list.gather entries)) window := by
  cases list with
  | headers => exact Read.repeatUnit_eq_repeatOnto skipHeader count [] window
  | methods | extensions | attributes => exact (congrFun (bind_pure _) window).symm

theorem readEntries_of_error {list : Listing} {count : Nat} {window left : Bytes} {e : WireError}
    (h : Read.replicate count list.readEntry window = .error e left) :
    list.readEntries count window = .error e left := by
  rw [readEntries_eq]
  exact Read.bind_of_error h

/-- The rounds that the loop makes. -/
def rounds (list : Listing) (count : Nat) (window : Bytes) : Nat :=
  Read.rounds list.readEntry count window

theorem readEntries_rounds (list : Listing) (count : Nat) (window : Bytes) :
    list.readEntries (list.rounds count window) window = list.readEntries count window := by
  rw [readEntries_eq, readEntries_eq]
  exact Read.bind_of_eq _ (Read.repeatOnto_rounds list.readEntry count [] window)

theorem readEntries_of_lt_rounds {list : Listing} {count fewer : Nat} {window : Bytes}
    (h : fewer < list.rounds count window) :
    ∃ entries rest, list.readEntries fewer window = .ok entries rest := by
  obtain ⟨entries, rest, hread⟩ := Read.repeatOnto_of_lt_rounds [] h
  rw [readEntries_eq]
  exact ⟨list.gather entries, rest, Read.bind_of_ok hread⟩

/-! ## Why a loop fails -/

theorem runsOut_keyed {α : Type} (g : UInt16 → Bytes → α) :
    Read.RunsOut (do
      let key ← Read.uint16
      let value ← Read.bytesField
      return g key value) :=
  Read.runsOut_uint16.bind fun key => Read.runsOut_bytesField.map (g key)

theorem runsOut_readEntry {list : Listing} (h : list ≠ .extensions) : list.readEntry.RunsOut := by
  cases list with
  | methods => exact Read.runsOut_bytesField
  | headers => exact runsOut_keyed fun _ _ => ()
  | extensions => exact absurd rfl h
  | attributes => exact runsOut_keyed Prod.mk

theorem runsOut_skipHeaders : skipHeaders.RunsOut :=
  Read.runsOut_uint16.bind fun count => (runsOut_keyed fun _ _ => ()).repeatUnit count.toNat

theorem readExtension_error {window left : Bytes} {e : WireError}
    (h : readExtension window = .error e left) :
    e.IsUnderrun ∨ e = .invalidUtf8 ∧ Read.IsIllegible window := by
  rcases Read.bind_error h with hname | ⟨name, mid, -, hheaders⟩
  · exact Read.stringField_error hname
  · exact Or.inl (runsOut_skipHeaders.map (fun _ => name) mid e left hheaders)

/-- A loop fails for want of bytes, or over an illegible name. -/
theorem replicate_error {list : Listing} {count : Nat} {window left : Bytes} {e : WireError}
    (h : Read.replicate count list.readEntry window = .error e left) :
    e.IsUnderrun ∨ e = .invalidUtf8 ∧ list = .extensions ∧ HasIllegibleName window := by
  obtain ⟨entries, form, rest, -, hform, hwindow, herror⟩ :=
    (Read.replicate_eq_error_iff list.reads_readEntry).mp h
  by_cases hlist : list = .extensions
  · subst hlist
    rcases readExtension_error herror with hunder | ⟨he, hrest⟩
    · exact Or.inl hunder
    · exact Or.inr ⟨he, rfl, entries, form, rest, hform, hwindow, hrest⟩
  · exact Or.inl (runsOut_readEntry hlist rest e left herror)

theorem replicate_of_hasIllegibleName {window : Bytes} (h : HasIllegibleName window) :
    ∃ count left, ∀ more, count ≤ more →
      Read.replicate more readExtension window = .error .invalidUtf8 left := by
  obtain ⟨names, form, rest, hform, rfl, hrest⟩ := h
  obtain ⟨left, hname⟩ := Read.stringField_of_isIllegible hrest
  have herror : readExtension rest = .error .invalidUtf8 left := Read.bind_of_error hname
  refine ⟨names.length + 1, left, fun more hmore => ?_⟩
  exact (Read.replicate_eq_error_iff reads_readExtension).mpr
    ⟨names, form, rest, hmore, hform, rfl, herror⟩

/-- What a loop comes to on a window without room for its entries does not depend on how many it is
to read. -/
theorem exists_error_of_overcounted (list : Listing) (window : Bytes) :
    ∃ e left, (e.IsUnderrun ∨ e = .invalidUtf8) ∧
      (e = .invalidUtf8 ↔ list = .extensions ∧ HasIllegibleName window) ∧
      ∀ count, window.length / list.minEntrySize < count →
        Read.replicate count list.readEntry window = .error e left := by
  obtain ⟨e, left, hcounts⟩ := Read.replicate_overcounted list.reads_readEntry
    list.minEntrySize_pos list.minEntrySize_le window
  have hread := hcounts _ (Nat.lt_succ_self _)
  have hcases := replicate_error hread
  refine ⟨e, left, hcases.imp_right And.left, ⟨fun he => ?_, ?_⟩, hcounts⟩
  · rcases hcases with ⟨needed, remaining, hunder⟩ | ⟨-, hname⟩
    · exact absurd (hunder.symm.trans he) (by simp)
    · exact hname
  · rintro ⟨rfl, hname⟩
    -- some number is both too large and large enough to come to the name
    obtain ⟨enough, left', hnames⟩ := replicate_of_hasIllegibleName hname
    have hlarge := hcounts (enough + (window.length / minEntrySize .extensions + 1)) (by omega)
    exact (EStateM.Result.error.inj (hlarge.symm.trans (hnames _ (Nat.le_add_right _ _)))).1

/-! ## From a loop to the message -/

theorem decode_of_report_error {payload left : Bytes} {e : WireError}
    (h : ServerError.read payload = .error e left) : decode ⟨errorTag, payload⟩ = .error e := by
  rw [decode_errorTag, Frame.read_of_error h]
  rfl

theorem skipHeaders_of_error {count : UInt16} {window left : Bytes} {e : WireError}
    (h : Read.repeatUnit skipHeader count.toNat window = .error e left) :
    skipHeaders (BigEndian.encode 2 count.toNat ++ window) = .error e left :=
  (Read.bind_of_ok (Read.reads_uint16.of_form rfl window)).trans h

theorem decode_of_extensions_error {major minor count : UInt16} {window left : Bytes}
    {e : WireError} (h : Read.replicate count.toNat readExtension window = .error e left) :
    decode ⟨handshakeTag, BigEndian.encode 2 major.toNat ++ (BigEndian.encode 2 minor.toNat ++
      (BigEndian.encode 2 count.toNat ++ window))⟩ = .error e := by
  have hlist : readExtensions (BigEndian.encode 2 count.toNat ++ window) = .error e left := by
    have hne : (BigEndian.encode 2 count.toNat ++ window).isEmpty = false := by
      rw [List.isEmpty_eq_false_iff, ← List.length_pos_iff, List.length_append,
        BigEndian.length_encode]
      omega
    rw [readExtensions, hne]
    exact (Read.bind_of_ok (Read.reads_uint16.of_form rfl window)).trans h
  have hread : readHandshake (BigEndian.encode 2 major.toNat ++ (BigEndian.encode 2 minor.toNat ++
      (BigEndian.encode 2 count.toNat ++ window))) = .error e left := by
    rw [readHandshake, Read.bind_of_ok (Read.reads_uint16.of_form rfl _),
      Read.bind_of_ok (Read.reads_uint16.of_form rfl _)]
    exact Read.bind_of_error hlist
  exact decode_of_read_error rfl hread

/-- A message fails in the way that the loop over one of its lists does. -/
theorem CountFollows.decode_error {list : Listing} {tag : UInt8} {front window left : Bytes}
    {count : Nat} {e : WireError} (hfront : CountFollows list tag front)
    (hcount : count < BigEndian.limit list.countWidth)
    (h : list.readEntries count window = .error e left) :
    decode ⟨tag, front ++ BigEndian.encode list.countWidth count ++ window⟩ = .error e := by
  cases hfront with
  | methods =>
    obtain ⟨count, rfl⟩ := Read.exists_uint32 hcount
    have hstatus : ∀ rest, Read.uint32 (BigEndian.encode 4 0xa ++ rest) = .ok 0xa rest :=
      Read.reads_uint32.of_form rfl
    have hread : readAuthentication (BigEndian.encode 4 0xa ++
        (BigEndian.encode 4 count.toNat ++ window)) = .error e left :=
      (Read.bind_of_ok (hstatus _)).trans
        ((Read.bind_of_ok (Read.reads_uint32.of_form rfl window)).trans (Read.bind_of_error h))
    rw [List.append_assoc]
    exact decode_of_read_error rfl hread
  | headers =>
    obtain ⟨count, rfl⟩ := Read.exists_uint16 hcount
    have hread : readReadyForCommand (BigEndian.encode 2 count.toNat ++ window) = .error e left :=
      Read.bind_of_error (skipHeaders_of_error h)
    exact decode_of_read_error rfl hread
  | extensions major minor =>
    obtain ⟨count, rfl⟩ := Read.exists_uint16 hcount
    rw [List.append_assoc, List.append_assoc]
    exact decode_of_extensions_error h
  | @extensionHeaders major minor more names name form field hnames hmore hname =>
    obtain ⟨count, rfl⟩ := Read.exists_uint16 hcount
    have hentry : readExtension (field ++ (BigEndian.encode 2 count.toNat ++ window)) =
        .error e left := by
      rw [readExtension, Read.bind_of_ok (Read.reads_stringField.of_form hname _)]
      exact Read.bind_of_error (skipHeaders_of_error h)
    -- the loop over the extensions fails at this one, behind the whole ones
    have hlist := (Read.replicate_eq_error_iff reads_readExtension).mpr
      ⟨names, form, _, hmore, hnames, rfl, hentry⟩
    simp only [List.append_assoc]
    exact decode_of_extensions_error hlist
  | @attributes severity code text field htext =>
    obtain ⟨count, rfl⟩ := Read.exists_uint16 hcount
    have hseverity : ∀ rest, Read.uint8 (severity :: rest) = .ok severity rest :=
      Read.reads_uint8.of_form (BigEndian.encode_byte severity).symm
    have hread : ServerError.read (severity :: (BigEndian.encode 4 code.toNat ++ (field ++
        (BigEndian.encode 2 count.toNat ++ window)))) = .error e left := by
      rw [ServerError.read, Read.bind_of_ok (hseverity _),
        Read.bind_of_ok (Read.reads_uint32.of_form rfl _),
        Read.bind_of_ok (Read.reads_stringField.of_form htext _),
        Read.bind_of_ok (Read.reads_uint16.of_form rfl _)]
      exact Read.bind_of_error h
    simp only [List.cons_append, List.append_assoc]
    exact decode_of_report_error hread

end Listing

/-- Where the bytes behind the number of entries have no room for so many, decoding fails for want
of bytes, except that an extension whose name is there and is no text makes it fail over that name;
and it fails with one error for all such numbers. No loop over a list makes more than one round
beyond those that its window has room for. -/
theorem declaredCounts_areBounded :
    (∀ (list : Listing) (tag : UInt8) (front window : Bytes), list.CountFollows tag front →
      ∃ e : WireError, (e.IsUnderrun ∨ e = .invalidUtf8) ∧
        (e = .invalidUtf8 ↔ list = .extensions ∧ HasIllegibleName window) ∧
        ∀ count, window.length / list.minEntrySize < count →
          count < BigEndian.limit list.countWidth →
          decode ⟨tag, front ++ BigEndian.encode list.countWidth count ++ window⟩ = .error e) ∧
    (∀ (list : Listing) (count : Nat) (window : Bytes),
      list.rounds count window ≤ window.length / list.minEntrySize + 1 ∧
      list.readEntries (list.rounds count window) window = list.readEntries count window ∧
      ∀ fewer, fewer < list.rounds count window →
        ∃ entries rest, list.readEntries fewer window = .ok entries rest) := by
  constructor
  · intro list tag front window hfront
    obtain ⟨e, left, hreason, hname, hcounts⟩ := list.exists_error_of_overcounted window
    refine ⟨e, hreason, hname, fun count hlarge hcount => ?_⟩
    exact hfront.decode_error hcount (Listing.readEntries_of_error (hcounts count hlarge))
  · intro list count window
    refine ⟨?_, list.readEntries_rounds count window, fun fewer h => ?_⟩
    · exact Read.rounds_le list.reads_readEntry list.minEntrySize_pos list.minEntrySize_le
        count window
    · exact Listing.readEntries_of_lt_rounds h

/-- One extension, then one whose name is no text, and a byte behind them. -/
def illegibleExtensions : Bytes := [0, 0, 0, 2, 0x78, 0x79, 0, 0, 0, 0, 0, 1, 0xff, 7]

/-- One mechanism, and half the length of another one. -/
def cutOffMethods : Bytes := [0, 0, 0, 1, 9, 0, 0]

theorem declaredCounts_areBounded_illegible :
    let version := BigEndian.encode 2 0 ++ BigEndian.encode 2 8
    let status := BigEndian.encode 4 0xa
    Listing.CountFollows .extensions handshakeTag version ∧ illegibleExtensions.length / 6 < 65535 ∧
      HasIllegibleName illegibleExtensions ∧
      decode ⟨handshakeTag, version ++ BigEndian.encode 2 65535 ++ illegibleExtensions⟩ =
        .error .invalidUtf8 ∧
      Listing.CountFollows .methods authenticationTag status ∧
      cutOffMethods.length / 4 < 4294967295 ∧
      decode ⟨authenticationTag, status ++ BigEndian.encode 4 4294967295 ++ cutOffMethods⟩ =
        .error (.underrun 4 2) ∧
      1 < Listing.methods.rounds 4294967295 cutOffMethods ∧
      Listing.methods.rounds 4294967295 cutOffMethods ≤ 2 ∧
      ∃ entries rest, Listing.methods.readEntries 1 cutOffMethods = .ok entries rest := by
  intro version status
  obtain ⟨hcounts, hrounds⟩ := declaredCounts_areBounded
  have hversion : Listing.CountFollows .extensions handshakeTag version := .extensions 0 8
  have hstatus : Listing.CountFollows .methods authenticationTag status := .methods
  -- the errors are found with the least numbers that are too large
  have hthree : decode ⟨handshakeTag, version ++ BigEndian.encode 2 3 ++ illegibleExtensions⟩ =
      .error .invalidUtf8 := by decide +kernel
  have htwo : decode ⟨authenticationTag, status ++ BigEndian.encode 4 2 ++ cutOffMethods⟩ =
      .error (.underrun 4 2) := by decide +kernel
  obtain ⟨e, -, hname, hextensions⟩ := hcounts _ _ _ illegibleExtensions hversion
  obtain rfl := Except.error.inj ((hextensions 3 (by decide) (by decide)).symm.trans hthree)
  obtain ⟨e, -, -, hmethods⟩ := hcounts _ _ _ cutOffMethods hstatus
  obtain rfl := Except.error.inj ((hmethods 2 (by decide) (by decide)).symm.trans htwo)
  obtain ⟨hle, -, hfewer⟩ := hrounds .methods 4294967295 cutOffMethods
  have hlt : 1 < Listing.methods.rounds 4294967295 cutOffMethods := by decide
  exact ⟨hversion, by decide, (hname.mp rfl).2, hextensions 65535 (by decide) (by decide), hstatus,
    by decide, hmethods 4294967295 (by decide) (by decide), hlt, hle, hfewer 1 hlt⟩

end ServerMessage

end EdgeClient
