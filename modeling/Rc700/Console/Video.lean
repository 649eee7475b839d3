import Rc700.Library.BlockMove
import Rc700.Library.Word

/-!
# Display memory

The two memory areas a console driver writes to: the screen (at `0xF800`, with
the work area right after it) and the bitmap `bgstar`.  Both are memories
without bounds: an offset past the end is an offset into whatever lies there.
Every store is noted in `stores` with its place and length, so that what a
driver writes can be told from what it leaves unchanged.
-/

namespace Rc700
namespace Console

open Library

/-- The memory areas a driver writes to. -/
inductive Area
  | screen
  | bgstar
  deriving DecidableEq, Repr

/-- The size of an area in bytes: `SCRN_SIZE` and `BGSTAR_SIZE`. -/
def Area.size : Area → Nat
  | .screen => 2000
  | .bgstar => 250

/-- A store of `length` bytes from `offset` on. -/
structure Store where
  area : Area
  offset : Nat
  length : Nat
  deriving DecidableEq, Repr

/-- The display memory. -/
structure Video where
  screen : Nat → Byte
  bgstar : Nat → Byte
  /-- Stores to the two areas, newest first. -/
  stores : List Store

namespace Video

/-- Change a memory area, noting the range that is written. -/
def modify (area : Area) (offset length : Nat) (f : (Nat → Byte) → Nat → Byte)
    (v : Video) : Video :=
  match area with
  | .screen => ⟨f v.screen, v.bgstar, ⟨.screen, offset, length⟩ :: v.stores⟩
  | .bgstar => ⟨v.screen, f v.bgstar, ⟨.bgstar, offset, length⟩ :: v.stores⟩

/-- Store one byte. -/
def poke (area : Area) (offset : Nat) (b : Byte) : Video → Video :=
  modify area offset 1 (fun mem => Function.update mem offset b)

/-- Fill upwards. -/
def memset (area : Area) (dst : Nat) (b : Byte) (n : Nat) : Video → Video :=
  modify area dst n (Library.memset n dst b)

/-- Copy upwards. -/
def ldir (area : Area) (src dst n : Nat) : Video → Video :=
  modify area dst n (Library.ldir n src dst)

/-- Copy downwards, from the last byte. -/
def lddr (area : Area) (src dst n : Nat) : Video → Video :=
  modify area (dst + 1 - n) n (Library.lddr n src dst)

/-- Every store so far lies inside its area. -/
def InBounds (v : Video) : Prop :=
  ∀ st ∈ v.stores, st.offset + st.length ≤ st.area.size

variable {v : Video} {area : Area} {offset dst src n : Nat} {b : Byte}

theorem InBounds.modify (hv : v.InBounds) {f : (Nat → Byte) → Nat → Byte} {length : Nat}
    (hstore : offset + length ≤ area.size) : (v.modify area offset length f).InBounds := by
  intro st hst
  cases area with
  | screen =>
      rcases List.mem_cons.mp hst with rfl | hold
      · exact hstore
      · exact hv st hold
  | bgstar =>
      rcases List.mem_cons.mp hst with rfl | hold
      · exact hstore
      · exact hv st hold

theorem InBounds.poke (hv : v.InBounds) (hstore : offset < area.size) :
    (v.poke area offset b).InBounds :=
  hv.modify hstore

theorem InBounds.memset (hv : v.InBounds) (hstore : dst + n ≤ area.size) :
    (v.memset area dst b n).InBounds :=
  hv.modify hstore

theorem InBounds.ldir (hv : v.InBounds) (hstore : dst + n ≤ area.size) :
    (v.ldir area src dst n).InBounds :=
  hv.modify hstore

theorem InBounds.lddr (hv : v.InBounds) (hroom : n ≤ dst + 1) (hstore : dst < area.size) :
    (v.lddr area src dst n).InBounds :=
  hv.modify (by omega)

/-- Every store so far went to the screen, and inside it. -/
def OnScreen (v : Video) : Prop :=
  ∀ st ∈ v.stores, st.area = .screen ∧ st.offset + st.length ≤ 2000

theorem OnScreen.modify (hv : v.OnScreen) {f : (Nat → Byte) → Nat → Byte} {length : Nat}
    (hstore : offset + length ≤ 2000) : (v.modify .screen offset length f).OnScreen := by
  intro st hst
  rcases List.mem_cons.mp hst with rfl | hold
  · exact ⟨rfl, hstore⟩
  · exact hv st hold

theorem OnScreen.poke (hv : v.OnScreen) (hstore : offset < 2000) :
    (v.poke .screen offset b).OnScreen :=
  hv.modify hstore

theorem OnScreen.memset (hv : v.OnScreen) (hstore : dst + n ≤ 2000) :
    (v.memset .screen dst b n).OnScreen :=
  hv.modify hstore

theorem OnScreen.ldir (hv : v.OnScreen) (hstore : dst + n ≤ 2000) :
    (v.ldir .screen src dst n).OnScreen :=
  hv.modify hstore

theorem OnScreen.lddr (hv : v.OnScreen) (hroom : n ≤ dst + 1) (hstore : dst < 2000) :
    (v.lddr .screen src dst n).OnScreen :=
  hv.modify (by omega)

/-! ### Stores to the screen -/

@[simp] theorem poke_screen_screen :
    (v.poke .screen offset b).screen = Function.update v.screen offset b := rfl

@[simp] theorem poke_screen_bgstar : (v.poke .screen offset b).bgstar = v.bgstar := rfl

@[simp] theorem memset_screen_screen :
    (v.memset .screen dst b n).screen = fillRange dst n b v.screen := memset_eq n dst b v.screen

@[simp] theorem memset_screen_bgstar : (v.memset .screen dst b n).bgstar = v.bgstar := rfl

@[simp] theorem ldir_screen_bgstar : (v.ldir .screen src dst n).bgstar = v.bgstar := rfl

theorem ldir_screen_screen (hdown : dst ≤ src) :
    (v.ldir .screen src dst n).screen = copyRange src dst n v.screen :=
  ldir_eq n hdown v.screen

@[simp] theorem lddr_screen_bgstar : (v.lddr .screen src dst n).bgstar = v.bgstar := rfl

theorem lddr_screen_screen (hup : src ≤ dst) (hroom : n ≤ src + 1) :
    (v.lddr .screen src dst n).screen = copyRange (src + 1 - n) (dst + 1 - n) n v.screen :=
  lddr_eq n hup hroom v.screen

/-! ### Stores to the bitmap -/

@[simp] theorem poke_bgstar_bgstar :
    (v.poke .bgstar offset b).bgstar = Function.update v.bgstar offset b := rfl

@[simp] theorem poke_bgstar_screen : (v.poke .bgstar offset b).screen = v.screen := rfl

@[simp] theorem memset_bgstar_bgstar :
    (v.memset .bgstar dst b n).bgstar = fillRange dst n b v.bgstar := memset_eq n dst b v.bgstar

@[simp] theorem memset_bgstar_screen : (v.memset .bgstar dst b n).screen = v.screen := rfl

@[simp] theorem ldir_bgstar_screen : (v.ldir .bgstar src dst n).screen = v.screen := rfl

theorem ldir_bgstar_bgstar (hdown : dst ≤ src) :
    (v.ldir .bgstar src dst n).bgstar = copyRange src dst n v.bgstar :=
  ldir_eq n hdown v.bgstar

@[simp] theorem lddr_bgstar_screen : (v.lddr .bgstar src dst n).screen = v.screen := rfl

theorem lddr_bgstar_bgstar (hup : src ≤ dst) (hroom : n ≤ src + 1) :
    (v.lddr .bgstar src dst n).bgstar = copyRange (src + 1 - n) (dst + 1 - n) n v.bgstar :=
  lddr_eq n hup hroom v.bgstar

end Video

end Console
end Rc700
