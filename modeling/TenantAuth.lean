import TenantAuth.Permissions
import TenantAuth.TenantIsolation
import TenantAuth.ScopedTokens
import TenantAuth.AuditTrail
import TenantAuth.Provenance
import TenantAuth.Issuance
import TenantAuth.Revocation
import TenantAuth.DoubleSpend
import TenantAuth.LostUpdates
import TenantAuth.Credentials
import TenantAuth.ResetTokens
import TenantAuth.Sessions
import TenantAuth.Removal
import TenantAuth.Deactivation
import TenantAuth.Administrators
import TenantAuth.Acceptance
import TenantAuth.Confidentiality
import TenantAuth.Forwarding
import TenantAuth.SlidingWindow
import TenantAuth.ScopeAgreement
import TenantAuth.Visibility
import TenantAuth.Rejoining
import TenantAuth.UserDeletion
import TenantAuth.SchemaCreation
import TenantAuth.Reporting
import TenantAuth.Expiry
import TenantAuth.Entitlements
import TenantAuth.PasswordPolicy
import TenantAuth.EmailForms
import TenantAuth.Enumeration
import TenantAuth.Stranding
import TenantAuth.Grants
import TenantAuth.Endurance
import TenantAuth.Recovery
import TenantAuth.Authenticity
import TenantAuth.Appointment
import TenantAuth.Checks
import TenantAuth.Attribution
import TenantAuth.Naming
import TenantAuth.Waiting
import TenantAuth.Persistence
import TenantAuth.HeadRevisions
