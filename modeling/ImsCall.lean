import ImsCall.Json.Profile
import ImsCall.Proofs.Codec.Content
import ImsCall.Proofs.Codec.Limits
import ImsCall.Proofs.Codec.Log
import ImsCall.Proofs.Codec.Loops
import ImsCall.Proofs.Codec.Precedence
import ImsCall.Proofs.Codec.Relay
import ImsCall.Proofs.Codec.Secrecy
import ImsCall.Proofs.Codec.Transfer
import ImsCall.Proofs.Extras.History
import ImsCall.Proofs.Extras.Sanitize
import ImsCall.Proofs.Json.Bags
import ImsCall.Proofs.Nesting.Requests
import ImsCall.Proofs.Session.History
import ImsCall.Proofs.VideoState
import ImsCall.Proofs.View.Consistent
import ImsCall.Proofs.View.Normal
import ImsCall.Proofs.View.Override
import ImsCall.Proofs.View.Rebuild
import ImsCall.Proofs.View.Sanitize
import ImsCall.Proofs.View.Split
import ImsCall.Session
import ImsCall.Settings.Document
