import Mathlib

/-!
# States and events of the library

The types of `lib/libble.h` that a user of the library sees: the connection states, and the
events that `dev->evh` is called with. The C handler takes an event number, a handle, a length
and a pointer; here every event is one constructor with the data that the pointer leads to.
`EVENT_INTERNAL` is split by its second number (`handle_t`): `STATE_CHANGED`, `ERROR_OCCURED`,
`DATA_TO_READ` and `DATA_TO_WRITE`.
-/

namespace Libble

/-- The connection states `devstate_t`. -/
inductive DevState
  | disconnected
  | connecting
  | connected
  deriving DecidableEq, Repr

/-- The record `char_info_t` that `EVENT_UUID` points to. -/
structure CharInfo where
  /-- The 16-bit attribute type, or 0. -/
  uuid : UInt16
  /-- The characteristic properties. -/
  properties : UInt8
  /-- The handle of the characteristic declaration. -/
  handle : UInt16
  /-- The handle of the characteristic value. -/
  valueHandle : UInt16
  deriving DecidableEq, Repr

/-- The calls of the event handler `dev->evh`. -/
inductive Event
  /-- `EVENT_INTERNAL`, `STATE_CHANGED`: the data is the connection state. -/
  | stateChanged (state : DevState)
  /-- `EVENT_INTERNAL`, `ERROR_OCCURED`: the data is a text. -/
  | errorOccured (message : String)
  /-- `EVENT_INTERNAL`, `DATA_TO_READ`. -/
  | dataToRead
  /-- `EVENT_INTERNAL`, `DATA_TO_WRITE`. -/
  | dataToWrite
  /-- `EVENT_DEVICE`: a value of the attribute `handle`; `data` is what lies in the buffer from
  the data pointer on, and `len` is the length that the handler is told. -/
  | device (handle : UInt16) (len : UInt8) (data : List UInt8)
  /-- `EVENT_UUID`: one entry of a discovery, or `none` for its end marker. -/
  | uuid (handle : UInt16) (info : Option CharInfo)
  deriving DecidableEq, Repr

/-- The state reported by an event, if it is a `STATE_CHANGED` event. -/
def Event.state? : Event → Option DevState
  | .stateChanged state => some state
  | _ => none

end Libble
