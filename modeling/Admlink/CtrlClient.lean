import Admlink.Daemon

/-!
# The control client: `admlink_ctrl.c` and `admlink_ctrl_sock.c`

`admlink_ctrl` joins its arguments to one datagram, sends it to the daemon and
turns the reply into its exit status. Whether the daemon carried a command out
it can only tell from the reply.
-/

namespace Admlink

open Program

/-! ## The command string -/

/-- `char buf[1024]` of `sysconf_request`. -/
def requestSize : Nat := 1024

/-- The text `sysconf_request` leaves in `buf` for `argv[0]` and the other
arguments: each `sprintf` writes behind the one before. -/
def sysconfRequest (argv0 : Bytes) (argv : List Bytes) : Except Fault Bytes :=
  strcats requestSize [] (cstr argv0 :: argv.map fun arg => bytes " " ++ cstr arg)

/-- The arguments with a blank between each two. -/
def spaced (argv0 : Bytes) (argv : List Bytes) : Bytes :=
  (cstr argv0 :: argv.map cstr).intersperse (bytes " ") |>.flatten

/-! ## The reply -/

/-- `STR_REPLY_ERROR`. -/
def strReplyError : Bytes := bytes "error\n"

/-- What `select` and `recv` answer. -/
inductive CtrlAnswer
  | timeout
  | failed
  | datagram (bs : Bytes)

/-- `len` as `_admlink_ctrl_command` passes it: its `buf[1024]` less the
terminator. -/
def replySize : Nat := 1023

/-- The loop of `admlink_ctrl_request`: its result, the length of the reply and
`buf` behind it. What starts with `<` goes to `msg_cb` and is waited past.
`none` while it waits. -/
def admlinkCtrlRequestLoop : List CtrlAnswer → Bytes → Option (Int × Nat × Bytes)
  | [], _ => none
  | .timeout :: _, buf => some (-2, 0, buf)
  | .failed :: _, buf => some (-1, 0, buf)
  | .datagram bs :: answers, buf =>
      let reply := bs.take replySize
      let buf := reply ++ buf.drop reply.length
      if reply.head? = some 60 then
        admlinkCtrlRequestLoop answers (buf.set (min reply.length (replySize - 1)) Ch.nul)
      else some (0, reply.length, buf)

/-- `admlink_ctrl_request`; `sent` says whether `send` succeeded. -/
def admlinkCtrlRequest (sent : Bool) (answers : List CtrlAnswer) (buf : Bytes) :
    Option (Int × Nat × Bytes) :=
  if sent then admlinkCtrlRequestLoop answers buf else some (-1, 0, buf)

/-- `_admlink_ctrl_command` on an open connection, with `print` set. -/
def admlinkCtrlCommand (sent : Bool) (answers : List CtrlAnswer) (buf : Bytes) : Option Int :=
  match admlinkCtrlRequest sent answers buf with
  | none => none
  | some (ret, len, buf) =>
      if ret = -2 then some (-2)
      else if ret < 0 then some (-1)
      else
        let buf := buf.set len Ch.nul
        if buf.take strReplyError.length = strReplyError then some (-10) else some ret

end Admlink
