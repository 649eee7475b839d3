import Rc700.CpNet.Survival

/-!
# Directory search

SEARCH FIRST, and SEARCH NEXT until it fails, against OPEN.

A search reports, in the order of the listing, the 8.3 form of every host name that the pattern
selects (`reported_iff`): in upper case, cut to eight and three, split at the last dot.  OPEN
spells a path out of the bytes of the name as they are, so that the two agree on some
directories only (`search_exact_iff`).
-/

namespace Rc700
namespace CpNet

open Library PathText CpNet.Action

variable {upper : Nat → Text} {s s' : Server} {payload : List Byte}

/-! ### Requests -/

/-- The request of a search. -/
def searchPayload (skip user code : Byte) (pattern rest : List Byte) : List Byte :=
  [skip, user, code] ++ pattern ++ rest

/-- The request of OPEN. -/
def openPayload (user code : Byte) (name rest : List Byte) : List Byte :=
  [user, code] ++ name ++ rest

/-- The name in a directory entry that is reported. -/
def reportedName (reply : List Byte) : List Byte := slice reply 2 13

/-- SEARCH NEXT, until it fails, reports these names. -/
inductive Continues (upper : Nat → Text) : Server → List (List Byte) → Prop
  | done {s s' : Server} (payload : List Byte)
      (hreply : respond upper 18#8 payload s = .ok failure s') : Continues upper s []
  | next {s s' : Server} (payload : List Byte) {reply : List Byte} {names : List (List Byte)}
      (hreply : respond upper 18#8 payload s = .ok reply s') (hmore : reply ≠ failure)
      (hnext : Continues upper s' names) : Continues upper s (reportedName reply :: names)

/-- A search reports these names. -/
inductive Reported (upper : Nat → Text) (payload : List Byte) (s : Server) :
    List (List Byte) → Prop
  | none {s' : Server} (hreply : respond upper 17#8 payload s = .ok failure s') :
      Reported upper payload s []
  | first {s' : Server} {reply : List Byte} {names : List (List Byte)}
      (hreply : respond upper 17#8 payload s = .ok reply s') (hmore : reply ≠ failure)
      (hnext : Continues upper s' names) :
      Reported upper payload s (reportedName reply :: names)

/-- A name of eight and three characters. -/
def IsName (name : List Byte) : Prop := name.length = 11 ∧ ∀ c ∈ name, c.toNat < 128

/-- The characters of a pattern: bit 7 is an attribute of the file. -/
def characters (pattern : List Byte) : List Byte := pattern.map (· &&& 0x7F#8)

/-- Position by position: `?` stands for any character. -/
def Matches (pattern name : List Byte) : Prop :=
  List.Forall₂ (fun p c => p = 63#8 ∨ p = c) pattern name

/-- The path that OPEN spells. -/
def spelledPath (dir : Text) (name : List Byte) : Text := join dir (nameText name)

/-- OPEN succeeds, on a file. -/
def OpenFinds (upper : Nat → Text) (s : Server) (code : Byte) (dir : Text)
    (name : List Byte) : Prop :=
  (∀ user rest, ∃ reply s', respond upper 15#8 (openPayload user code name rest) s = .ok reply s' ∧
    reply.head? = some 0#8) ∧
  ∃ f, s.host.node (spelledPath dir name) = .file f

/-- The search is exact: each name that OPEN finds and that matches is reported once, and no other
name is. -/
def SearchExact (upper : Nat → Text) (s : Server) (code : Byte) (dir : Text)
    (pattern payload : List Byte) : Prop :=
  ∃ names, Reported upper payload s names ∧ names.Nodup ∧ (∀ name ∈ names, IsName name) ∧
    ∀ name, IsName name →
      (name ∈ names ↔ OpenFinds upper s code dir name ∧ Matches (characters pattern) name)

/-! ### What is reported -/

/-- The 8.3 form of a host name. -/
def shortName (upper : Nat → Text) (entry : Text) : List Byte :=
  (ljust 8 (cpmName upper entry).1).map (BitVec.ofNat 8) ++
    (ljust 3 (cpmName upper entry).2).map (BitVec.ofNat 8)

theorem isName_shortName {entry : Text} (hascii : Encodable upper entry) :
    IsName (shortName upper entry) := by
  obtain ⟨hfname, hfext⟩ := length_cpmName upper entry
  refine ⟨?_, fun c hc => ?_⟩
  · rw [shortName, List.length_append, List.length_map, List.length_map, length_ljust hfname,
      length_ljust hfext]
  · have hbyte : ∀ (n : Nat) (t : Text), (∀ x ∈ t, x < 128) →
        c ∈ (ljust n t).map (BitVec.ofNat 8) → c.toNat < 128 := by
      intro n t ht hmem
      obtain ⟨x, hx, rfl⟩ := List.mem_map.mp hmem
      have hlt := ljust_ascii.mpr ht x hx
      rw [BitVec.toNat_ofNat, Nat.mod_eq_of_lt (by omega)]
      exact hlt
    rcases List.mem_append.mp hc with hc | hc
    · exact hbyte 8 _ (fun x hx => hascii x (List.mem_append_left _ hx)) hc
    · exact hbyte 3 _ (fun x hx => hascii x (List.mem_append_right _ hx)) hc

/-- The reply that reports an entry. -/
def searchReply (upper : Nat → Text) (entry : Text) (records : Nat) : List Byte :=
  [0#8, 0#8] ++ shortName upper entry ++
    [0#8, 0#8, 0#8, BitVec.ofNat 8 (min records 128)] ++ List.replicate 16 0#8

theorem reportedName_searchReply {entry : Text} (hascii : Encodable upper entry) (records : Nat) :
    reportedName (searchReply upper entry records) = shortName upper entry ∧
      searchReply upper entry records ≠ failure := by
  have hlen := (isName_shortName hascii).1
  constructor
  · rw [reportedName, searchReply, slice]
    simp [hlen]
  · intro h
    have := congrArg List.length h
    simp [searchReply, failure] at this

/-- The directory entry, spliced together. -/
theorem splice_entry {fname fext : List Byte} (hname : fname.length = 8) (hext : fext.length = 3)
    (records : Nat) :
    splice ((List.replicate 33 0#8).set 0 (BitVec.ofNat 8 0)) 1 33
      (((splice (splice ((List.replicate 32 0#8).set 0 (BitVec.ofNat 8 0)) 1 9 fname) 9 12
        fext).set 12 (BitVec.ofNat 8 0)).set 15 (BitVec.ofNat 8 (min records 128))) =
      [0#8, 0#8] ++ (fname ++ fext) ++ [0#8, 0#8, 0#8, BitVec.ofNat 8 (min records 128)] ++
        List.replicate 16 0#8 := by
  match fname, hname, fext, hext with
  | [_, _, _, _, _, _, _, _], _, [_, _, _], _ => rfl

variable {found : List HostName} {i drive : Nat} {entry : HostName}

theorem takeEntry_some (hsearch : s.search = some ⟨found, i, drive⟩)
    (hentry : found[i]? = some entry) :
    takeEntry s = .ok (some (entry, drive)) { s with search := some ⟨found, i + 1, drive⟩ } := by
  rw [takeEntry, hsearch]
  simp only [hentry]

/-- An entry is reported, and the search goes on. -/
theorem searchResult_reports (hsearch : s.search = some ⟨found, i, drive⟩)
    (hentry : found[i]? = some entry) (hascii : Encodable upper entry.val)
    (hnul : 0 ∉ join ((s.driveDirs drive).getD [dot]) entry.val) :
    ∃ records touched, searchResult upper s = .ok (searchReply upper entry.val records)
      { s with search := some ⟨found, i + 1, drive⟩, touched := touched } := by
  obtain ⟨hfname, hfext⟩ := length_cpmName upper entry.val
  have hstart := searchResult_taken upper (takeEntry_some hsearch hentry)
  -- both parts of the short name are ASCII, so `encode` raises nothing
  have hfirst : ∀ c ∈ ljust 8 (cpmName upper entry.val).1, c < 128 :=
    ljust_ascii.mpr fun c hc => hascii c (List.mem_append_left _ hc)
  have hsecond : ∀ c ∈ ljust 3 (cpmName upper entry.val).2, c < 128 :=
    ljust_ascii.mpr fun c hc => hascii c (List.mem_append_right _ hc)
  generalize htaken : ({ s with search := some ⟨found, i + 1, drive⟩ } : Server) = taken at hstart
  have hdirs : taken.driveDirs = s.driveDirs := by rw [← htaken]
  rw [← hdirs] at hnul
  have hdir : searchDir drive taken = .ok ((taken.driveDirs drive).getD [dot]) taken := rfl
  obtain ⟨records, hrecords⟩ := searchSize (s := taken) hnul
  have hlen : ∀ fname fext : List Byte, fname.length = 8 → fext.length = 3 →
      (splice (splice ((List.replicate 32 0#8).set 0 (BitVec.ofNat 8 0)) 1 9 fname) 9 12
        fext).length = 32 := by
    intro fname fext hfname hfext
    match fname, hfname, fext, hfext with
    | [_, _, _, _, _, _, _, _], _, [_, _, _], _ => rfl
  have hname : ((ljust 8 (cpmName upper entry.val).1).map (BitVec.ofNat 8)).length = 8 := by
    rw [List.length_map, length_ljust hfname]
  have hext : ((ljust 3 (cpmName upper entry.val).2).map (BitVec.ofNat 8)).length = 3 := by
    rw [List.length_map, length_ljust hfext]
  refine ⟨records, join ((taken.driveDirs drive).getD [dot]) entry.val :: taken.touched, ?_⟩
  -- the statements of the source in their order, each with its result
  rw [hstart, bind_apply, encode_ok hfirst]
  simp only
  rw [bind_apply, encode_ok hsecond]
  simp only
  rw [bind_apply, hdir]
  simp only
  rw [bind_apply, hrecords]
  simp only
  rw [store_bind_ok (by rw [hlen _ _ hname hext]; omega) (by omega),
    store_bind_ok (by rw [List.length_set, hlen _ _ hname hext]; omega) (by omega),
    store_bind_ok (by rw [List.length_replicate]; omega) (by omega), pure_apply,
    splice_entry hname hext records, ← htaken]
  rfl

/-- A form that is not ASCII raises an exception. -/
theorem searchResult_raises (hsearch : s.search = some ⟨found, i, drive⟩)
    (hentry : found[i]? = some entry) (hascii : ¬ Encodable upper entry.val) :
    ∃ e s', searchResult upper s = .error e s' := by
  have hstart := searchResult_taken upper (takeEntry_some hsearch hentry)
  by_cases hfirst : ∀ c ∈ (cpmName upper entry.val).1, c < 128
  · have hsecond : ¬ ∀ c ∈ (cpmName upper entry.val).2, c < 128 := by
      intro hsecond
      refine hascii fun c hc => ?_
      exact (List.mem_append.mp hc).elim (hfirst c) (hsecond c)
    rw [bind_apply, encode_ok (ljust_ascii.mpr hfirst)] at hstart
    simp only at hstart
    rw [bind_apply, encode_error (mt ljust_ascii.mp hsecond)] at hstart
    exact ⟨_, _, hstart⟩
  · rw [bind_apply, encode_error (mt ljust_ascii.mp hfirst)] at hstart
    exact ⟨_, _, hstart⟩

/-- A search with no entry left fails. -/
theorem searchResult_fails (upper : Nat → Text) (hsearch : s.search = some ⟨found, i, drive⟩)
    (hentry : found[i]? = none) :
    searchResult upper s = .ok failure { s with search := none } := by
  have htake : takeEntry s = .ok none { s with search := none } := by
    rw [takeEntry, hsearch]
    simp only [hentry]
  rw [searchResult, bind_apply, htake]
  rfl

/-! ### The whole search -/

theorem nul_notMem_join {dir : Text} (hnul : 0 ∉ dir) (entry : HostName) :
    0 ∉ join dir entry.val := by
  rw [entry.property.1.join]
  intro hmem
  rcases List.mem_append.mp hmem with hmem | hmem
  · unfold closed at hmem
    split at hmem
    · exact hnul hmem
    · rcases List.mem_append.mp hmem with hmem | hmem
      · exact hnul hmem
      · exact absurd (List.mem_singleton.mp hmem) (by decide)
  · exact entry.property.2 hmem

/-- The forms of some host names. -/
def shortNames (upper : Nat → Text) (entries : List HostName) : List (List Byte) :=
  entries.map fun entry => shortName upper entry.val

theorem respond_next (payload : List Byte) :
    respond upper 18#8 payload s = searchResult upper s := rfl

theorem respond_first (payload : List Byte) :
    respond upper 17#8 payload s = handleSearchFirst upper payload s := rfl

/-- What SEARCH NEXT reports: the forms of the entries that are left. -/
theorem continues_iff {dir : Text} (hdir : s.driveDirs drive = some dir) (hnul : 0 ∉ dir)
    (hsearch : s.search = some ⟨found, i, drive⟩) (names : List (List Byte)) :
    Continues upper s names ↔
      (∀ entry ∈ found.drop i, Encodable upper entry.val) ∧
        names = shortNames upper (found.drop i) := by
  -- by induction on the entries not taken yet; the server and the index move along
  induction hrest : found.drop i generalizing s i names with
  | nil =>
      have hentry : found[i]? = none := by
        rw [List.getElem?_eq_none_iff]
        exact List.drop_eq_nil_iff.mp hrest
      have hfails := searchResult_fails upper hsearch hentry
      constructor
      · intro hrun
        refine ⟨fun _ hmem => (nomatch hmem), ?_⟩
        cases hrun with
        | done => rfl
        | next payload hreply hmore hnext =>
            rw [respond_next, hfails] at hreply
            injection hreply with hreply
            exact absurd hreply.symm hmore
      · rintro ⟨-, rfl⟩
        exact .done [] hfails
  | cons entry rest ih =>
      -- an entry whose short name is not ASCII ends the run with an exception
      have hentry : found[i]? = some entry := by
        rw [← List.head?_drop, hrest]
        rfl
      have hdrop : found.drop (i + 1) = rest := by
        rw [← List.tail_drop, hrest]
        rfl
      by_cases hascii : Encodable upper entry.val
      · have hnulPath : 0 ∉ join ((s.driveDirs drive).getD [dot]) entry.val := by
          rw [hdir]
          exact nul_notMem_join hnul entry
        obtain ⟨records, touched, hreports⟩ := searchResult_reports (s := s) hsearch hentry hascii
          hnulPath
        obtain ⟨hname, hmore⟩ := reportedName_searchReply hascii records
        have hlater := fun names => ih (s := { s with
          search := some ⟨found, i + 1, drive⟩, touched := touched }) hdir rfl names hdrop
        constructor
        · intro hrun
          cases hrun with
          | done payload hreply =>
              rw [respond_next, hreports] at hreply
              injection hreply with hreply
              exact absurd hreply hmore
          | next payload hreply hmore' hnext =>
              rw [respond_next, hreports] at hreply
              injection hreply with hreply hstate
              subst hreply hstate
              obtain ⟨hrestAscii, hnames⟩ := (hlater _).mp hnext
              refine ⟨fun other hother => ?_, ?_⟩
              · exact (List.mem_cons.mp hother).elim (fun heq => heq ▸ hascii) (hrestAscii other)
              · rw [hname, hnames]
                rfl
        · rintro ⟨hall, rfl⟩
          have hnext := (hlater _).mpr
            ⟨fun other hother => hall other (List.mem_cons_of_mem entry hother), rfl⟩
          have hrun := Continues.next [] hreports hmore hnext
          rw [hname] at hrun
          exact hrun
      · obtain ⟨e, s', hraises⟩ := searchResult_raises hsearch hentry hascii
        constructor
        · intro hrun
          cases hrun with
          | done payload hreply =>
              rw [respond_next, hraises] at hreply
              exact nomatch hreply
          | next payload hreply =>
              rw [respond_next, hraises] at hreply
              exact nomatch hreply
        · rintro ⟨hall, -⟩
          exact absurd (hall entry (List.mem_cons_self ..)) hascii

section Exactness

variable {dir : Text} {user skip code : Byte} {pattern name rest : List Byte}

/-- What a search reports: the forms of the entries that the pattern selects. -/
theorem reported_iff (hcode : payload[2]? = some code)
    (hdir : s.driveDir (driveOf code) = some dir) (hnul : 0 ∉ dir) (names : List (List Byte)) :
    Reported upper payload s names ↔
      (∀ entry ∈ foundIn upper s.host dir (fcbName payload 2), Encodable upper entry.val) ∧
        names = shortNames upper (foundIn upper s.host dir (fcbName payload 2)) := by
  let started : Server :=
    { s with search := some ⟨foundIn upper s.host dir (fcbName payload 2), 0, driveOf code⟩ }
  have hfirst : respond upper 17#8 payload s = searchResult upper started := by
    rw [respond_first, handleSearchFirst_apply upper hcode hdir, if_neg hnul]
  have hsame : Reported upper payload s names ↔ Continues upper started names := by
    constructor
    · intro hrun
      cases hrun with
      | none hreply => exact .done [] (hfirst.symm.trans hreply)
      | first hreply hmore hnext => exact .next [] (hfirst.symm.trans hreply) hmore hnext
    · intro hrun
      cases hrun with
      | done _ hreply => exact .none (hfirst.trans hreply)
      | next _ hreply hmore hnext => exact .first (hfirst.trans hreply) hmore hnext
  rw [hsame]
  exact continues_iff (s := started) (driveDir_some hdir) hnul rfl names

theorem fcbName_search (hpattern : pattern.length = 11) :
    fcbName (searchPayload skip user code pattern rest) 2 = characters pattern := by
  rw [fcbName, slice, searchPayload, characters]
  simp [hpattern]

theorem fcbName_open (hname : IsName name) :
    fcbName (openPayload user code name rest) 1 = name := by
  have hmask : ∀ c ∈ name, c &&& 0x7F#8 = c := by
    intro c hc
    have hlow := hname.2 c hc
    apply BitVec.eq_of_toNat_eq
    rw [BitVec.toNat_and]
    exact (Nat.and_two_pow_sub_one_eq_mod c.toNat 7).trans (Nat.mod_eq_of_lt hlow)
  rw [fcbName, slice, openPayload]
  simp only [List.cons_append, List.nil_append, Nat.reduceAdd,
    List.take_succ_cons, List.drop_succ_cons, List.drop_zero]
  rw [List.take_append_of_le_length (by rw [hname.1]), List.take_of_length_le (by rw [hname.1])]
  exact (List.map_congr_left hmask).trans (List.map_id name)

/-- The path that OPEN spells is a file of the host. -/
def NamesFile (s : Server) (dir : Text) (name : List Byte) : Prop :=
  0 ∉ spelledPath dir name ∧ ∃ f, s.host.node (spelledPath dir name) = .file f

theorem openFinds_iff (hdir : s.driveDir (driveOf code) = some dir) (hname : IsName name) :
    OpenFinds upper s code dir name ↔ NamesFile s dir name := by
  have hbody : ∀ user rest, respond upper 15#8 (openPayload user code name rest) s =
      (do if ← pathExists (spelledPath dir name) then
            let size ← getsize (spelledPath dir name)
            openReply (driveOf code) name (recordsOf size)
          else pure failure : Action (List Byte)) s := by
    intro user rest
    refine (@withPath_mapped (openPayload user code name rest) s _ _ _ rfl hdir).trans ?_
    rw [fcbName_open hname]
    rfl
  constructor
  · rintro ⟨hopen, hfile⟩
    refine ⟨fun hnul => ?_, hfile⟩
    -- `open` raises on a NUL, so a request that is answered has none
    obtain ⟨reply, s', hreply, hhead⟩ := hopen 0#8 []
    rw [hbody, bind_apply, pathExists, if_pos hnul] at hreply
    injection hreply with hreply
    rw [← hreply] at hhead
    exact absurd hhead (by decide)
  · rintro ⟨hnul, f, hnode⟩
    refine ⟨fun user rest => ?_, f, hnode⟩
    have hexists : s.host.node (spelledPath dir name) ≠ .absent := by
      rw [hnode]
      exact Node.noConfusion
    have hsize : s.host.getsize (spelledPath dir name) = .ok (f.bytes.length, s.host) := by
      rw [Host.getsize, hnode]
    have hcall : getsize (spelledPath dir name)
          { s with touched := spelledPath dir name :: s.touched } =
        .ok f.bytes.length
          { s with touched := spelledPath dir name :: spelledPath dir name :: s.touched } :=
      call_ok hnul hsize
    refine ⟨openFcb (driveOf code) name (recordsOf f.bytes.length),
      { s with touched := spelledPath dir name :: spelledPath dir name :: s.touched }, ?_, rfl⟩
    rw [hbody, bind_apply, pathExists, if_neg hnul]
    simp only [decide_eq_true hexists, if_true, bind_apply, hcall]
    exact openReply_ok _ _ hname.1

/-! ### Exact searches -/

/-- The host names in a directory. -/
def Host.entries (h : Host) (dir : Text) : List HostName :=
  match h.node dir with
  | .directory _ => h.listing (closed dir)
  | _ => []

/-- Their 8.3 forms. -/
def Host.forms (upper : Nat → Text) (h : Host) (dir : Text) : List Text :=
  (h.entries dir).map fun entry => form upper entry.val

/-- The characters of a name. -/
def codes (name : List Byte) : Text := name.map BitVec.toNat

/-- What a search takes to be so, of the host names and of the pattern.  Forms that have the
parts of the pattern are ASCII, and no two host names have the same.  Of the names that match both
by parts and by position, those of files are the forms of host names (`files`); by parts and by
position the same forms match (`narrow`), and the same files (`wide`). -/
structure Agrees (upper : Nat → Text) (s : Server) (dir : Text) (pattern : List Byte) :
    Prop where
  ascii : ∀ n ∈ s.host.forms upper dir, PartsMatch pattern n → ∀ c ∈ n, c < 128
  once : ∀ name, IsName name → PartsMatch pattern (codes name) →
    (s.host.forms upper dir).count (codes name) ≤ 1
  files : ∀ name, IsName name → PartsMatch pattern (codes name) → Matches pattern name →
    (codes name ∈ s.host.forms upper dir ↔ NamesFile s dir name)
  narrow : ∀ name, IsName name → codes name ∈ s.host.forms upper dir →
    PartsMatch pattern (codes name) → Matches pattern name
  wide : ∀ name, IsName name → NamesFile s dir name → Matches pattern name →
    PartsMatch pattern (codes name)

theorem Agrees.same (h : Agrees upper s dir pattern) (hname : IsName name) :
    codes name ∈ s.host.forms upper dir ∧ PartsMatch pattern (codes name) ↔
      NamesFile s dir name ∧ Matches pattern name := by
  constructor
  · rintro ⟨hform, hparts⟩
    have hmatches := h.narrow name hname hform hparts
    exact ⟨(h.files name hname hparts hmatches).mp hform, hmatches⟩
  · rintro ⟨hfile, hmatches⟩
    have hparts := h.wide name hname hfile hmatches
    exact ⟨(h.files name hname hparts hmatches).mpr hfile, hparts⟩

/-- The host names of the directory are ASCII, and each is spelled out of its own form.  They name
files, and no other files can be spelled. -/
structure OwnForms (upper : Nat → Text) (s : Server) (dir : Text) : Prop where
  ascii : ∀ entry ∈ s.host.entries dir, Encodable upper entry.val
  own : ∀ entry ∈ s.host.entries dir, nameText (shortName upper entry.val) = entry.val
  distinct : (s.host.entries dir).Nodup
  files : ∀ entry ∈ s.host.entries dir, NamesFile s dir (shortName upper entry.val)
  spelled : ∀ name, IsName name → NamesFile s dir name →
    ∃ entry ∈ s.host.entries dir, spelledPath dir name = join dir entry.val

theorem shortName_eq (upper : Nat → Text) (entry : Text) :
    shortName upper entry = (form upper entry).map (BitVec.ofNat 8) :=
  List.map_append.symm

theorem codes_map {n : Text} (hn : ∀ c ∈ n, c < 128) : codes (n.map (BitVec.ofNat 8)) = n := by
  rw [codes, List.map_map]
  refine (List.map_congr_left fun c hc => ?_).trans (List.map_id n)
  have hlow := hn c hc
  exact (BitVec.toNat_ofNat _ _).trans (Nat.mod_eq_of_lt (by omega))

theorem map_codes (name : List Byte) : (codes name).map (BitVec.ofNat 8) = name := by
  rw [codes, List.map_map]
  refine (List.map_congr_left fun c _ => ?_).trans (List.map_id name)
  exact (BitVec.ofNat_toNat 8 c).trans (BitVec.setWidth_eq c)

theorem form_ascii {entry : Text} (hascii : Encodable upper entry) :
    ∀ c ∈ form upper entry, c < 128 := by
  intro c hc
  rcases List.mem_append.mp hc with hc | hc
  · exact ljust_ascii.mpr (fun x hx => hascii x (List.mem_append_left _ hx)) c hc
  · exact ljust_ascii.mpr (fun x hx => hascii x (List.mem_append_right _ hx)) c hc

theorem encodable_of_form {entry : Text} (hascii : ∀ c ∈ form upper entry, c < 128) :
    Encodable upper entry := by
  have hfirst := ljust_ascii.mp fun c hc => hascii c (List.mem_append_left _ hc)
  have hsecond := ljust_ascii.mp fun c hc => hascii c (List.mem_append_right _ hc)
  intro c hc
  exact (List.mem_append.mp hc).elim (hfirst c) (hsecond c)

theorem codes_shortName {entry : Text} (hascii : Encodable upper entry) :
    codes (shortName upper entry) = form upper entry := by
  rw [shortName_eq, codes_map (form_ascii hascii)]

/-- The entries of a search are those whose forms have the parts of the pattern. -/
theorem foundIn_eq (hupper : UpperCase upper) (h : Host) (dir : Text)
    (hascii : ∀ c ∈ pattern, c.toNat < 128) (hlen : pattern.length ≤ 11) :
    foundIn upper h dir pattern =
      (h.entries dir).filter fun entry => PartsMatch pattern (form upper entry.val) := by
  have hselects : ∀ entry : HostName, matchesEntry upper pattern entry =
      decide (PartsMatch pattern (form upper entry.val)) := by
    intro entry
    rw [Bool.eq_iff_iff, matchesEntry_iff hupper hascii hlen, decide_eq_true_iff]
  unfold foundIn Host.entries Host.listdir
  cases h.node dir with
  | directory size => exact List.filter_congr fun entry _ => hselects entry
  | absent | file => rfl

theorem shortNames_found (hupper : UpperCase upper) (h : Host) (dir : Text)
    (hascii : ∀ c ∈ pattern, c.toNat < 128) (hlen : pattern.length ≤ 11) :
    shortNames upper (foundIn upper h dir pattern) =
      ((h.forms upper dir).filter fun n => PartsMatch pattern n).map
        (·.map (BitVec.ofNat 8)) := by
  rw [foundIn_eq hupper h dir hascii hlen, shortNames, Host.forms, List.filter_map, List.map_map]
  exact List.map_congr_left fun entry _ => shortName_eq upper entry.val

/-- The names that are reported, where all of them can be. -/
theorem mem_forms_iff {forms : List Text} (hascii : ∀ n ∈ forms, ∀ c ∈ n, c < 128) :
    name ∈ forms.map (·.map (BitVec.ofNat 8)) ↔ codes name ∈ forms := by
  rw [List.mem_map]
  constructor
  · rintro ⟨n, hn, rfl⟩
    rwa [codes_map (hascii n hn)]
  · exact fun hn => ⟨codes name, hn, map_codes name⟩

theorem nodup_forms_iff {forms : List Text} (hascii : ∀ n ∈ forms, ∀ c ∈ n, c < 128) :
    (forms.map (·.map (BitVec.ofNat 8))).Nodup ↔ forms.Nodup := by
  refine ⟨List.Nodup.of_map _, List.Nodup.map_on fun n hn n' hn' hsame => ?_⟩
  rw [← codes_map (hascii n hn), hsame, codes_map (hascii n' hn')]

theorem isName_of_form {n : Text} (hn : n ∈ s.host.forms upper dir) (hascii : ∀ c ∈ n, c < 128) :
    ∃ name, IsName name ∧ codes name = n := by
  obtain ⟨entry, -, rfl⟩ := List.mem_map.mp hn
  have hencodable := encodable_of_form hascii
  exact ⟨_, isName_shortName hencodable, codes_shortName hencodable⟩

theorem mem_listed {pattern : List Byte} {forms : List Text} {n : Text} :
    n ∈ forms.filter (fun n => PartsMatch pattern n) ↔ n ∈ forms ∧ PartsMatch pattern n := by
  rw [List.mem_filter, decide_eq_true_iff]

/-- Each name is listed once. -/
theorem listed_nodup_iff {pattern : List Byte}
    (hascii : ∀ n ∈ s.host.forms upper dir, PartsMatch pattern n → ∀ c ∈ n, c < 128) :
    ((s.host.forms upper dir).filter fun n => PartsMatch pattern n).Nodup ↔
      ∀ name, IsName name → PartsMatch pattern (codes name) →
        (s.host.forms upper dir).count (codes name) ≤ 1 := by
  have hcount : ∀ {n}, PartsMatch pattern n →
      ((s.host.forms upper dir).filter fun n => PartsMatch pattern n).count n =
        (s.host.forms upper dir).count n :=
    fun hparts => List.count_filter (p := fun n => decide (PartsMatch pattern n))
      (decide_eq_true hparts)
  rw [List.nodup_iff_count_le_one]
  constructor
  · intro honce name _ hparts
    rw [← hcount hparts]
    exact honce _
  · intro honce n
    by_cases hn : n ∈ (s.host.forms upper dir).filter fun n => PartsMatch pattern n
    · obtain ⟨hform, hparts⟩ := mem_listed.mp hn
      obtain ⟨name, hname, rfl⟩ := isName_of_form hform (hascii n hform hparts)
      rw [hcount hparts]
      exact honce name hname hparts
    · rw [List.count_eq_zero_of_not_mem hn]
      exact Nat.zero_le 1

/-- **A search is exact** where the names of the host and the pattern agree, and nowhere else. -/
theorem exact_iff_agrees (hupper : UpperCase upper)
    (hdir : s.driveDir (driveOf code) = some dir) (hnul : 0 ∉ dir)
    (hpattern : pattern.length = 11) :
    SearchExact upper s code dir pattern (searchPayload skip user code pattern rest) ↔
      Agrees upper s dir (characters pattern) := by
  have hreported := fun names => @reported_iff upper s
    (searchPayload skip user code pattern rest) dir code rfl hdir hnul names
  have hchars : ∀ c ∈ characters pattern, c.toNat < 128 := ascii_masked pattern
  have hlen : (characters pattern).length ≤ 11 := by
    rw [characters, List.length_map, hpattern]
  rw [fcbName_search hpattern, shortNames_found hupper s.host dir hchars hlen,
    foundIn_eq hupper s.host dir hchars hlen] at hreported
  have hopen : ∀ {name}, IsName name →
      (OpenFinds upper s code dir name ↔ NamesFile s dir name) := openFinds_iff hdir
  constructor
  -- what was reported is what the directory has, so the replies say all about its files
  · rintro ⟨names, hrun, hnodup, -, hexact⟩
    obtain ⟨hencodable, rfl⟩ := (hreported names).mp hrun
    have hascii : ∀ n ∈ s.host.forms upper dir, PartsMatch (characters pattern) n →
        ∀ c ∈ n, c < 128 := by
      intro n hform hparts
      obtain ⟨entry, hentry, rfl⟩ := List.mem_map.mp hform
      exact form_ascii (hencodable entry (List.mem_filter.mpr ⟨hentry, decide_eq_true hparts⟩))
    have hlisted := fun n hn => (mem_listed.mp hn).elim (hascii n)
    have hsame : ∀ name, IsName name →
        (codes name ∈ s.host.forms upper dir ∧ PartsMatch (characters pattern) (codes name) ↔
          NamesFile s dir name ∧ Matches (characters pattern) name) := by
      intro name hname
      rw [← mem_listed, ← mem_forms_iff hlisted, ← hopen hname]
      exact hexact name hname
    constructor
    · exact hascii
    · rwa [nodup_forms_iff hlisted, listed_nodup_iff hascii] at hnodup
    · intro name hname hparts hmatches
      exact ⟨fun hform => ((hsame name hname).mp ⟨hform, hparts⟩).1,
        fun hfile => ((hsame name hname).mpr ⟨hfile, hmatches⟩).1⟩
    · exact fun name hname hform hparts => ((hsame name hname).mp ⟨hform, hparts⟩).2
    · exact fun name hname hfile hmatches => ((hsame name hname).mpr ⟨hfile, hmatches⟩).2
  · intro hagrees
    have hlisted := fun n hn => (mem_listed.mp hn).elim (hagrees.ascii n)
    refine ⟨_, (hreported _).mpr ⟨fun entry hentry => ?_, rfl⟩, ?_, fun name hmem => ?_,
      fun name hname => ?_⟩
    · obtain ⟨hmem, hparts⟩ := List.mem_filter.mp hentry
      exact encodable_of_form
        (hagrees.ascii _ (List.mem_map_of_mem hmem) (of_decide_eq_true hparts))
    · rw [nodup_forms_iff hlisted, listed_nodup_iff hagrees.ascii]
      exact hagrees.once
    · rw [mem_forms_iff hlisted] at hmem
      obtain ⟨other, hother, hcodes⟩ := isName_of_form (mem_listed.mp hmem).1 (hlisted _ hmem)
      have hsame := congrArg (List.map (BitVec.ofNat 8)) hcodes
      rw [map_codes, map_codes] at hsame
      exact hsame ▸ hother
    · rw [mem_forms_iff hlisted, mem_listed, hopen hname]
      exact hagrees.same hname

/-- In a directory whose names are their own forms that leaves the pattern. -/
theorem agrees_iff_own (hown : OwnForms upper s dir) {pattern : List Byte} :
    Agrees upper s dir pattern ↔ ∀ entry ∈ s.host.entries dir,
      (PartsMatch pattern (form upper entry.val) ↔ Matches pattern (shortName upper entry.val)) ∧
        ∀ name, IsName name → spelledPath dir name = join dir entry.val → Matches pattern name →
          name = shortName upper entry.val := by
  have hform : ∀ entry ∈ s.host.entries dir, form upper entry.val ∈ s.host.forms upper dir :=
    fun entry hentry => List.mem_map_of_mem hentry
  -- the form of an entry has no other entry
  have hinj : ∀ entry ∈ s.host.entries dir, ∀ other ∈ s.host.entries dir,
      form upper entry.val = form upper other.val → entry = other := by
    intro entry hentry other hother hsame
    apply Subtype.ext
    rw [← hown.own entry hentry, ← hown.own other hother, shortName_eq, shortName_eq, hsame]
  have hmem : ∀ name, codes name ∈ s.host.forms upper dir ↔
      ∃ entry ∈ s.host.entries dir, name = shortName upper entry.val := by
    intro name
    rw [Host.forms, List.mem_map]
    refine exists_congr fun entry => and_congr_right fun hentry => ?_
    rw [← codes_shortName (hown.ascii entry hentry)]
    constructor
    · intro hsame
      have hback := congrArg (List.map (BitVec.ofNat 8)) hsame
      rw [map_codes, map_codes] at hback
      exact hback.symm
    · exact fun hsame => congrArg codes hsame.symm
  have hspelled : ∀ name entry, entry ∈ s.host.entries dir →
      spelledPath dir name = join dir entry.val → NamesFile s dir name := by
    intro name entry hentry hsame
    have hfile := hown.files entry hentry
    rw [NamesFile, spelledPath, hown.own entry hentry] at hfile
    rwa [NamesFile, hsame]
  constructor
  · intro hagrees entry hentry
    have hshort := isName_shortName (hown.ascii entry hentry)
    refine ⟨?_, fun name hname hspells hmatches => ?_⟩
    · have hself := hagrees.same hshort
      rw [codes_shortName (hown.ascii entry hentry)] at hself
      exact ⟨fun hparts => (hself.mp ⟨hform entry hentry, hparts⟩).2,
        fun hmatches => (hself.mpr ⟨hown.files entry hentry, hmatches⟩).2⟩
    · obtain ⟨hlisted, -⟩ :=
        (hagrees.same hname).mpr ⟨hspelled name entry hentry hspells, hmatches⟩
      obtain ⟨other, hother, rfl⟩ := (hmem name).mp hlisted
      rw [spelledPath, hown.own other hother, other.property.1.join, entry.property.1.join]
        at hspells
      rw [Subtype.ext (List.append_cancel_left hspells)]
  · intro hpattern
    have hfound : ∀ name, IsName name → NamesFile s dir name → Matches pattern name →
        codes name ∈ s.host.forms upper dir ∧ PartsMatch pattern (codes name) := by
      intro name hname hfile hmatches
      obtain ⟨entry, hentry, hspells⟩ := hown.spelled name hname hfile
      obtain ⟨hparts, hother⟩ := hpattern entry hentry
      obtain rfl := hother name hname hspells hmatches
      rw [codes_shortName (hown.ascii entry hentry)]
      exact ⟨hform entry hentry, hparts.mpr hmatches⟩
    constructor
    · intro n hn _
      obtain ⟨entry, hentry, rfl⟩ := List.mem_map.mp hn
      exact form_ascii (hown.ascii entry hentry)
    · exact fun name _ _ => List.nodup_iff_count_le_one.mp (hown.distinct.map_on hinj) _
    · intro name hname _ hmatches
      refine ⟨fun hlisted => ?_, fun hfile => (hfound name hname hfile hmatches).1⟩
      obtain ⟨entry, hentry, rfl⟩ := (hmem name).mp hlisted
      exact hown.files entry hentry
    · intro name _ hlisted hparts
      obtain ⟨entry, hentry, rfl⟩ := (hmem name).mp hlisted
      rw [codes_shortName (hown.ascii entry hentry)] at hparts
      exact (hpattern entry hentry).1.mp hparts
    · exact fun name hname hfile hmatches => (hfound name hname hfile hmatches).2

/-- **When a search is exact.**  In general the names of the host and the pattern have to agree; in
a directory whose names are their own forms, the two ways to match have to, on the names of the
entries, and no other spelling of an entry may match. -/
theorem search_exact_iff (hupper : UpperCase upper) (skip user : Byte) (rest : List Byte)
    (hdir : s.driveDir (driveOf code) = some dir) (hnul : 0 ∉ dir)
    (hpattern : pattern.length = 11) :
    (SearchExact upper s code dir pattern (searchPayload skip user code pattern rest) ↔
      Agrees upper s dir (characters pattern)) ∧
    (OwnForms upper s dir →
      (SearchExact upper s code dir pattern (searchPayload skip user code pattern rest) ↔
        ∀ entry ∈ s.host.entries dir,
          (PartsMatch (characters pattern) (form upper entry.val) ↔
            Matches (characters pattern) (shortName upper entry.val)) ∧
          ∀ name, IsName name → spelledPath dir name = join dir entry.val →
            Matches (characters pattern) name → name = shortName upper entry.val)) := by
  have hexact := @exact_iff_agrees upper s dir user skip code pattern rest hupper hdir hnul hpattern
  exact ⟨hexact, fun hown => hexact.trans (agrees_iff_own hown)⟩

end Exactness

/-! ### A directory with one file -/

/-- A server whose first drive holds one empty file. -/
def fileServer (file : HostName) : Server :=
  { emptyServer with
    host :=
      { node := fun p =>
          if p = text "/srv" ∨ p = text "/srv/" then .directory 4096
          else if p = join (text "/srv") file.val then .file ⟨[], true, true⟩ else .absent
        listing := fun p => if p = text "/srv/" then [file] else []
        admits := fun _ => true } }

/-- The host name `FOO.TXT`. -/
def upperName : HostName := ⟨text "FOO.TXT", by decide⟩

/-- The host name `foo.txt`. -/
def lowerName : HostName := ⟨text "foo.txt", by decide⟩

/-- The 8.3 name `FOO.TXT`. -/
def fooName : List Byte := (text "FOO     TXT").map (BitVec.ofNat 8)

/-- A name without `?` matches itself only. -/
theorem matches_literal {pattern name : List Byte} (hliteral : 63#8 ∉ pattern)
    (hmatches : Matches pattern name) : name = pattern := by
  induction hmatches with
  | nil => rfl
  | cons hchar _ ih =>
      obtain ⟨hfirst, hrest⟩ := not_or.mp (mt List.mem_cons.mpr hliteral)
      rw [ih hrest, hchar.resolve_left (Ne.symm hfirst)]

theorem ownForms_foo : OwnForms asciiUpper (fileServer upperName) (text "/srv") := by
  have hentries : (fileServer upperName).host.entries (text "/srv") = [upperName] := by
    decide
  refine ⟨?_, ?_, ?_, ?_, fun name _ hfile => ?_⟩
  · rw [hentries, List.forall_mem_singleton]
    decide
  · rw [hentries, List.forall_mem_singleton]
    decide
  · rw [hentries]
    exact List.nodup_singleton _
  · rw [hentries, List.forall_mem_singleton]
    exact ⟨by decide, ⟨[], true, true⟩, by decide⟩
  · obtain ⟨-, f, hnode⟩ := hfile
    rw [hentries]
    refine ⟨upperName, List.mem_singleton_self _, ?_⟩
    -- the host has one file
    simp only [fileServer] at hnode
    split_ifs at hnode with hdir hpath
    exact hpath

/-- A search for `FOO.TXT`, which is there. -/
theorem search_exact_foo :
    OwnForms asciiUpper (fileServer upperName) (text "/srv") ∧
      Agrees asciiUpper (fileServer upperName) (text "/srv") (characters fooName) ∧
      SearchExact asciiUpper (fileServer upperName) 1#8 (text "/srv") fooName
        (searchPayload 0#8 0#8 1#8 fooName []) := by
  have hform : shortName asciiUpper upperName.val = fooName := by decide
  have hchars : characters fooName = fooName := by decide
  have hentries : (fileServer upperName).host.entries (text "/srv") = [upperName] := by
    decide
  have hself : Matches fooName fooName := List.forall₂_same.mpr fun c _ => Or.inr rfl
  have hdir : (fileServer upperName).driveDir (driveOf 1#8) = some (text "/srv") := by
    decide
  have hlen : fooName.length = 11 := by decide
  have hiff := search_exact_iff asciiUpper_upperCase 0#8 0#8 [] hdir (by decide) hlen
  have hexact : SearchExact asciiUpper (fileServer upperName) 1#8 (text "/srv") fooName
      (searchPayload 0#8 0#8 1#8 fooName []) := by
    rw [hiff.2 ownForms_foo, hentries, List.forall_mem_singleton, hchars, hform]
    refine ⟨iff_of_true (by decide) hself, fun name _ _ hmatches => ?_⟩
    exact matches_literal (by decide) hmatches
  exact ⟨ownForms_foo, hiff.1.mp hexact, hexact⟩

/-- A file in lower case is reported in upper case, and then it is not found. -/
theorem lowerCase_inexact :
    ¬ ∀ (upper : Nat → Text) (s : Server) (skip user code : Byte) (dir : Text)
      (pattern rest : List Byte), s.driveDir (driveOf code) = some dir → 0 ∉ dir →
        pattern.length = 11 →
        SearchExact upper s code dir pattern (searchPayload skip user code pattern rest) := by
  intro hclaim
  have hdir : (fileServer lowerName).driveDir (driveOf 1#8) = some (text "/srv") := by
    decide
  have hlen : fooName.length = 11 := by decide
  obtain ⟨names, hrun, -, hnames, hexact⟩ := hclaim asciiUpper (fileServer lowerName) 0#8 0#8 1#8
    (text "/srv") fooName [] hdir (by decide) hlen
  obtain ⟨-, rfl⟩ := (reported_iff rfl hdir (by decide) names).mp hrun
  have hfound : shortNames asciiUpper (foundIn asciiUpper (fileServer lowerName).host (text "/srv")
      (fcbName (searchPayload 0#8 0#8 1#8 fooName []) 2)) = [fooName] := by
    decide
  rw [hfound] at hnames hexact
  have hmem : fooName ∈ [fooName] := List.mem_singleton.mpr rfl
  obtain ⟨⟨-, f, hfile⟩, -⟩ := (hexact fooName (hnames fooName hmem)).mp hmem
  have habsent :
      (fileServer lowerName).host.node (spelledPath (text "/srv") fooName) = .absent := by
    decide
  rw [habsent] at hfile
  exact nomatch hfile

end CpNet
end Rc700
